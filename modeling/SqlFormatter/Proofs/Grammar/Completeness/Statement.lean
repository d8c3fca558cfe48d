import SqlFormatter.Grammar.Statement
import SqlFormatter.Proofs.Grammar.Canonical
import SqlFormatter.Proofs.Grammar.Completeness.Expression

/-!
# SqlFormatter.Proofs.Grammar.Completeness.Statement

The rules for statements read every canonical statement from its words (`sentenceOf_complete`). As
the grammar has one statement for a list of tokens, no two canonical statements that differ in more
than positions and comments have the same words (`shape_eq_of_yield_eq`).
-/

namespace SqlFormatter

namespace Grammar

section Clauses

variable {n : Nat} {ts rest : List Token}

theorem optionalAlias_complete (a : Option Alias)
    (hstarts : Starts ts ((a.elim [] Alias.leaves).map Leaf.word) rest)
    (hrest : Next (· ≠ .keyword .AS) rest) :
    Exact (fun b => b.map Alias.shape = a.map Alias.shape) True rest (optionalAlias ts) := by
  cases a with
  | none =>
    have hts := starts_nil.1 hstarts
    subst hts
    have hrun : optionalAlias ts = .ok (none, ts) := by
      cases ts with
      | nil => rfl
      | cons t us => rw [optionalAlias, if_neg (hrest t rfl)]
    rw [hrun]
    exact .of_good rfl trivial
  | some a =>
    obtain ⟨t, us, rfl, ht, hstarts⟩ := starts_fixed hstarts
    obtain ⟨u, vs, rfl, hu, htext, hstarts⟩ := starts_text (k := .ident) rfl hstarts
    have hrest := starts_nil.1 hstarts
    subst hrest
    rw [optionalAlias, if_pos ht, identifier_of_kind hu]
    have hshape : (some (Alias.mk t.pos ⟨u.pos, u.text⟩)).map Alias.shape =
        (some a).map Alias.shape := by
      simp [Alias.shape, Name.shape, htext]
    exact .of_good hshape trivial

/-- A column is read if its alias ends where its words do. -/
theorem column_complete {c : Column} (hc : InnerCompletes n c.expr) :
    Completes (column (expression n)) Column.leaves Column.shape (·.expr.nesting < n)
      (fun ts => Stops tierCount ts ∧ Next (· ≠ .keyword .AS) ts) c := by
  intro ts rest hstarts ⟨hstops, hrest⟩
  rw [Column.leaves, List.map_append] at hstarts
  obtain ⟨us, he, ha⟩ := starts_append.1 hstarts
  have hus : Stops tierCount us := by
    cases hname : c.asName with
    | none =>
      rw [hname] at ha
      exact starts_nil.1 ha ▸ hstops
    | some a =>
      rw [hname] at ha
      obtain ⟨t, us, rfl, ht, -⟩ := starts_fixed ha
      exact stops_cons (by rw [ht]; rfl)
  refine (((hc he hus).bind _).trans fun e hshape => ?_).congr (by rw [and_true])
  refine ((optionalAlias_complete c.asName ha hrest).bind _).map fun a hname => ⟨⟨e, a⟩, ?_, rfl⟩
  rw [Column.shape, Column.shape, hshape, hname]

theorem selectClause_complete {c : SelectClause}
    (hc : ∀ x ∈ c.columns.toList, InnerCompletes n x.expr) :
    Completes (selectClause (expression n)) SelectClause.leaves SelectClause.shape
      (fun c => ∀ x ∈ c.columns.toList, x.expr.nesting < n)
      (fun ts => startsWith (.keyword .FROM) ts) c := by
  intro ts rest hstarts hrest
  obtain ⟨t, us, rfl, ht, hstarts⟩ := starts_fixed hstarts
  obtain ⟨v, vs, rfl⟩ := List.exists_cons_of_ne_nil (l := rest) (by rintro rfl; cases hrest)
  have hv : v.kind = .keyword .FROM := eq_of_beq hrest
  rw [selectClause, keyword_of_kind ht]
  have hcomma : ∀ u us, u.kind = .comma →
      Stops tierCount (u :: us) ∧ Next (· ≠ .keyword .AS) (u :: us) := fun u us hu =>
    ⟨stops_cons (by rw [hu]; rfl), next_cons (by rw [hu]; decide)⟩
  have hstops : Stops tierCount (v :: vs) ∧ Next (· ≠ .keyword .AS) (v :: vs) :=
    ⟨stops_cons (by rw [hv]; rfl), next_cons (by rw [hv]; decide)⟩
  have hcolumns := commaList_complete hcomma c.columns (fun x hx => column_complete (hc x hx))
    hstarts hstops (next_cons (by rw [hv]; decide))
  refine (hcolumns.bind _).map fun columns hcolumns => ⟨⟨t.pos, columns⟩, ?_, ?_⟩
  · rw [SelectClause.shape, SelectClause.shape, hcolumns]
  · dsimp only
    rw [if_pos hrest]
    rfl

/-- No check refuses a list of tokens that does not start with what it looks for. -/
theorem refuse_eq_ok_of_next {construct : Construct} {starts : Token → Bool} {ts : List Token}
    (h : ∀ t ∈ ts.head?, starts t = false) : refuse construct starts ts = .ok () := by
  cases ts with
  | nil => rfl
  | cons t ts => rw [refuse, h t rfl, if_neg Bool.false_ne_true]

theorem table_complete (x : Table) :
    Completes table Table.leaves Table.shape (fun _ => True)
      (Next fun k => k ≠ .keyword .AS ∧ k ≠ .ident) x := by
  intro ts rest hstarts hrest
  obtain ⟨t, us, rfl, ht, htext, hstarts⟩ := starts_text (k := .ident) rfl hstarts
  have hsubquery : refuse .subquery (·.kind == .leftParen) (t :: us) = .ok () :=
    refuse_eq_ok_of_next (by simp [ht])
  have hjoin : refuse .join startsJoin rest = .ok () :=
    refuse_eq_ok_of_next fun u hu => by simp [startsJoin, (hrest u hu).2]
  rw [table, hsubquery, identifier_of_kind ht]
  refine ((optionalAlias_complete x.asName hstarts fun u hu => (hrest u hu).1).bind _).map
    fun a hname => ⟨⟨⟨t.pos, t.text⟩, a⟩, ?_, ?_⟩
  · rw [Table.shape, Table.shape, hname, Name.shape, Name.shape, htext]
  · dsimp only
    rw [hjoin]
    rfl

theorem Next.mono {p q : Kind → Prop} {ts : List Token} (h : Next p ts) (hpq : ∀ k, p k → q k) :
    Next q ts := fun t ht => hpq _ (h t ht)

/-- The kinds of token that a statement goes on with behind its tables. -/
theorem atTablesEnd_iff {ts : List Token} :
    atTablesEnd ts ↔
      Next (· ∈ [Kind.keyword .WHERE, .keyword .GROUP, .keyword .ORDER, .semicolon]) ts := by
  cases ts with
  | nil => exact iff_of_true rfl fun _ ht => nomatch ht
  | cons t ts => exact List.contains_iff_mem.trans ⟨next_cons, fun h => h t rfl⟩

theorem fromClause_complete (c : FromClause) :
    Completes fromClause FromClause.leaves FromClause.shape (fun _ => True)
      (fun ts => atTablesEnd ts) c := by
  intro ts rest hstarts hrest
  obtain ⟨t, us, rfl, ht, hstarts⟩ := starts_fixed hstarts
  have hend := atTablesEnd_iff.1 hrest
  rw [fromClause, keyword_of_kind ht]
  refine (((commaList_complete (fun t us h => next_cons (by rw [h]; decide)) c.tables
    (fun x _ => table_complete x) hstarts (hend.mono (by decide))
    (hend.mono (by decide))).bind _).map fun tables htables =>
      ⟨⟨t.pos, tables⟩, ?_, ?_⟩).congr (by simp)
  · rw [FromClause.shape, FromClause.shape, htables]
  · dsimp only
    rw [if_pos hrest]
    rfl

/-- No expression goes on where the next token ends it. -/
theorem stops_of_next {k : Nat} {ts : List Token} (h : Next (endsExpr · = true) ts) :
    Stops k ts := by
  cases ts with
  | nil => exact fun _ ht => nomatch ht
  | cons t ts => exact stops_cons (h t rfl)

theorem whereClause_complete {c : Option WhereClause} (hc : ∀ w ∈ c, InnerCompletes n w.cond)
    (hstarts : Starts ts ((c.elim [] WhereClause.leaves).map Leaf.word) rest)
    (hrest : Next (fun k => endsExpr k ∧ k ≠ .keyword .WHERE) rest) :
    Exact (fun d => d.map WhereClause.shape = c.map WhereClause.shape)
      (∀ w ∈ c, w.cond.nesting < n) rest (whereClause (expression n) ts) := by
  cases c with
  | none =>
    have hts := starts_nil.1 hstarts
    subst hts
    have hrun : whereClause (expression n) ts = .ok (none, ts) := by
      cases ts with
      | nil => rfl
      | cons t us => rw [whereClause, if_neg (hrest t rfl).2]
    rw [hrun]
    exact .of_good rfl (by simp)
  | some w =>
    obtain ⟨t, us, rfl, ht, hstarts⟩ := starts_fixed hstarts
    rw [whereClause, if_pos ht]
    refine (((hc w rfl hstarts (stops_of_next fun u hu => (hrest u hu).1)).bind _).map
      fun cond hcond => ⟨some ⟨t.pos, cond⟩, ?_, rfl⟩).congr (by simp)
    rw [Option.map_some, Option.map_some, WhereClause.shape, WhereClause.shape, hcond]

theorem byClause_complete {k : Keyword} {c : Option ByClause}
    (hc : ∀ b ∈ c, ∀ e ∈ b.items.toList, InnerCompletes n e)
    (hstarts : Starts ts ((c.elim [] (ByClause.leaves k)).map Leaf.word) rest)
    (hrest : Next (fun kind => endsExpr kind ∧ kind ≠ .comma ∧ kind ≠ .keyword k) rest) :
    Exact (fun d => d.map ByClause.shape = c.map ByClause.shape)
      (∀ b ∈ c, ∀ e ∈ b.items.toList, e.nesting < n) rest (byClause (expression n) k ts) := by
  cases c with
  | none =>
    have hts := starts_nil.1 hstarts
    subst hts
    have hrun : byClause (expression n) k ts = .ok (none, ts) := by
      cases ts with
      | nil => rfl
      | cons t us => rw [byClause, if_neg (hrest t rfl).2.2]
    rw [hrun]
    exact .of_good rfl (by simp)
  | some b =>
    obtain ⟨t, us, rfl, ht, hstarts⟩ := starts_fixed hstarts
    obtain ⟨u, vs, rfl, hu, hstarts⟩ := starts_fixed hstarts
    rw [byClause, if_pos ht, keyword_of_kind hu]
    refine (((commaList_complete (fun t us h => stops_cons (by rw [h]; rfl)) b.items (hc b rfl)
      hstarts (stops_of_next fun v hv => (hrest v hv).1) fun v hv => (hrest v hv).2.1).bind _).map
      fun items hitems => ⟨some ⟨t.pos, u.pos, items⟩, ?_, rfl⟩).congr (by simp)
    rw [Option.map_some, Option.map_some, ByClause.shape, ByClause.shape, hitems]

end Clauses

/-! ### Statements -/

/-- What is true of the first token of an optional clause and of the token behind it is true of the
next token. -/
theorem next_of_optional {α : Type} {p : Kind → Prop} {c : Option α} {leaves : α → List Leaf}
    {ts rest : List Token} (k : Kind)
    (hfirst : ∀ x, ∃ pos ls, leaves x = .fixed pos k :: ls) (hk : p k)
    (hstarts : Starts ts ((c.elim [] leaves).map Leaf.word) rest) (hrest : Next p rest) :
    Next p ts := by
  cases c with
  | none => exact starts_nil.1 hstarts ▸ hrest
  | some x =>
    obtain ⟨pos, ls, hls⟩ := hfirst x
    rw [Option.elim_some, hls, List.map_cons] at hstarts
    obtain ⟨t, us, rfl, ht, -⟩ := starts_fixed hstarts
    exact next_cons (ht ▸ hk)

theorem statement_complete {n : Nat} {s : Statement} (h : s.Canonical) :
    Completes (statement (expression n)) Statement.leaves Statement.shape (·.nesting ≤ n)
      (Next (· ∈ [Kind.semicolon])) s := by
  intro ts rest hstarts hrest
  obtain ⟨hselectInner, hwhereInner, hgroupInner, horderInner⟩ :=
    Statement.forall_exprs_iff.1 fun e he => expression_complete (h e he) n
  simp only [Statement.leaves, List.map_append] at hstarts
  obtain ⟨ys, hstarts, horder⟩ := starts_append.1 hstarts
  obtain ⟨xs, hstarts, hgroup⟩ := starts_append.1 hstarts
  obtain ⟨ws, hstarts, hwhere⟩ := starts_append.1 hstarts
  obtain ⟨vs, hselect, hfrom⟩ := starts_append.1 hstarts
  -- A clause is followed by the keyword of a later one, or by what is behind the statement.
  have hys : Next (· ∈ [Kind.keyword .ORDER, .semicolon]) ys :=
    next_of_optional (.keyword .ORDER) (fun _ => ⟨_, _, rfl⟩) (by simp) horder
      fun t ht => List.mem_cons_of_mem _ (hrest t ht)
  have hxs : Next (· ∈ [Kind.keyword .GROUP, .keyword .ORDER, .semicolon]) xs :=
    next_of_optional (.keyword .GROUP) (fun _ => ⟨_, _, rfl⟩) (by simp) hgroup
      fun t ht => List.mem_cons_of_mem _ (hys t ht)
  have hws : Next (· ∈ [Kind.keyword .WHERE, .keyword .GROUP, .keyword .ORDER, .semicolon]) ws :=
    next_of_optional (.keyword .WHERE) (fun _ => ⟨_, _, rfl⟩) (by simp) hwhere
      fun t ht => List.mem_cons_of_mem _ (hxs t ht)
  obtain ⟨t, us, rfl, ht, -⟩ := starts_fixed hselect
  obtain ⟨v, vs, rfl, hv, -⟩ := starts_fixed hfrom
  have hfromStarts : startsWith (.keyword .FROM) (v :: vs) := by rw [startsWith, hv]; rfl
  unfold statement
  rw [startsWith, ht, beq_self_eq_true, Bool.not_true, if_neg Bool.false_ne_true]
  refine (((selectClause_complete hselectInner hselect hfromStarts).bind _).trans
    fun select hselect' => ?_).congr
      (Statement.nesting_le_iff.trans Statement.forall_exprs_iff).symm
  refine (((fromClause_complete s.fromClause hfrom (atTablesEnd_iff.2 hws)).bind _).trans
    fun tables hfrom' => ?_).congr (by rw [true_and])
  refine ((whereClause_complete hwhereInner hwhere (hxs.mono (by decide))).bind _).trans
    fun cond hwhere' => ?_
  refine ((byClause_complete hgroupInner hgroup (hys.mono (by decide))).bind _).trans
    fun groupBy hgroup' => ?_
  refine ((byClause_complete horderInner horder (hrest.mono (by decide))).bind _).map
    fun orderBy horder' => ⟨⟨select, tables, cond, groupBy, orderBy, []⟩, ?_, rfl⟩
  simp only [Statement.shape, hselect', hfrom', hwhere', hgroup', horder']

/-- The tokens behind a statement that may stand at the end of a text. -/
theorem ending_of_words {ts : List Token}
    (h : ts.map Token.word = [] ∨ ts.map Token.word = [.fixed .semicolon]) :
    ending ts = .ok () ∧ Next (· ∈ [Kind.semicolon]) ts := by
  rcases h with h | h
  · rw [List.map_eq_nil_iff.1 h]
    exact ⟨rfl, fun _ ht => nomatch ht⟩
  · obtain ⟨t, us, rfl, ht, hus⟩ := List.map_eq_cons_iff.1 h
    rw [List.map_eq_nil_iff.1 hus]
    have hkind : t.kind = .semicolon := congrArg Word.kind ht
    exact ⟨if_pos hkind, next_cons (by rw [hkind]; exact List.mem_singleton_self _)⟩

/-- A canonical statement is read from its words if it nests at most `n` levels deep, and otherwise
refused for that. -/
theorem sentenceOf_complete {s : Statement} (h : s.Canonical) (n : Nat) {ts rest : List Token}
    (hstarts : Starts ts s.yield rest)
    (hrest : rest.map Token.word = [] ∨ rest.map Token.word = [.fixed .semicolon]) :
    Yields (fun s' => s'.shape = s.shape) (s.nesting ≤ n) .ok (sentenceOf (expression n) ts) := by
  obtain ⟨hending, hnext⟩ := ending_of_words hrest
  refine ((statement_complete h hstarts hnext).bind _).map fun s' hs' => ⟨s', hs', ?_⟩
  dsimp only
  rw [hending]
  rfl

/-- Canonical statements with the same words are the same up to positions and comments. -/
theorem shape_eq_of_yield_eq {s s' : Statement} (h : s.Canonical) (h' : s'.Canonical)
    (hyield : s.yield = s'.yield) : s.shape = s'.shape := by
  -- Both are what the grammar makes of the same tokens, if enough levels may be entered.
  let n := max s.nesting s'.nesting
  obtain ⟨ts, hts⟩ := s.exists_words
  have hstarts : Starts ts s.yield [] := ⟨ts, (List.append_nil ts).symm, hts⟩
  obtain ⟨r, hr, hrun⟩ := (sentenceOf_complete h n hstarts (Or.inl rfl)).1 (Nat.le_max_left ..)
  obtain ⟨r', hr', hrun'⟩ :=
    (sentenceOf_complete h' n (hyield ▸ hstarts) (Or.inl rfl)).1 (Nat.le_max_right ..)
  rw [hrun] at hrun'
  cases hrun'
  exact hr.symm.trans hr'

end Grammar

end SqlFormatter
