import SqlFormatter.Proofs.Grammar.Refusal.Expression
import SqlFormatter.Proofs.Grammar.Soundness.Statement

/-!
# SqlFormatter.Proofs.Grammar.Refusal.Statement

Where the rules for statements refuse, and why (`Rejects`). As for expressions there is one lemma
for each rule. The main result is `sentenceOf_rejects`.
-/

namespace SqlFormatter

namespace Grammar

/-- The words are the first words of a statement. -/
abbrev StartingStatement : List Word → Prop := Begins Statement.yield Statement.Canonical

/-- The words are the first words of a column. -/
abbrev StartingColumn : List Word → Prop :=
  Begins (fun c : Column => c.leaves.map Leaf.word) fun c => c.expr.Canonical

/-- The words are the first words of a SELECT clause. -/
abbrev StartingSelect : List Word → Prop :=
  Begins (fun c : SelectClause => c.leaves.map Leaf.word)
    fun c => ∀ x ∈ c.columns.toList, x.expr.Canonical

/-- The words are the first words of a WHERE clause, if there is one. -/
abbrev StartingWhere : List Word → Prop :=
  Begins (fun c : Option WhereClause => (c.elim [] WhereClause.leaves).map Leaf.word)
    fun c => ∀ w ∈ c, w.cond.Canonical

/-- The words are the first words of the clause of the keyword `k` and BY, if there is one. -/
abbrev StartingBy (k : Keyword) : List Word → Prop :=
  Begins (fun c : Option ByClause => (c.elim [] (ByClause.leaves k)).map Leaf.word)
    fun c => ∀ b ∈ c, ∀ e ∈ b.items.toList, e.Canonical

/-- Why the tokens are refused: behind some that could have gone on there is one that cannot, or the
start of a construct that is not supported. -/
inductive Rejects (ts : List Token) : Refusal → Prop where
  /-- A token is refused, in an expression or for what it is. -/
  | stuck {r : Refusal} (h : Stuck StartingStatement ts r) : Rejects ts r
  /-- There is a subquery in the place of a table. -/
  | subquery {read us : List Token} {l : Token} (hts : ts = read ++ l :: us)
      (hread : TableExpected (read.map Token.word)) (hl : l.kind = .leftParen) :
    Rejects ts ⟨.unsupported .subquery l.pos, l :: us⟩
  /-- A table is part of a join. -/
  | join {read us : List Token} {t : Token} (hts : ts = read ++ t :: us)
      (hread : AfterTable (read.map Token.word)) (ht : startsJoin t) :
    Rejects ts ⟨.unsupported .join t.pos, t :: us⟩
  /-- There is something behind the semicolon. -/
  | multiple {read us : List Token} {t : Token} (hts : ts = read ++ t :: us)
      (hread : AfterSemicolon (read.map Token.word)) :
    Rejects ts ⟨.unsupported .multipleStatements t.pos, t :: us⟩

/-! ### Columns -/

/-- A refused construct is that of the next token. -/
theorem refuse_eq_error {construct : Construct} {starts : Token → Bool} {ts : List Token}
    {r : Refusal} (h : refuse construct starts ts = .error r) :
    ∃ t us, ts = t :: us ∧ starts t ∧ r = ⟨.unsupported construct t.pos, t :: us⟩ := by
  cases ts with
  | nil => cases h
  | cons t us =>
    rw [refuse] at h
    split at h
    · next ht =>
      cases h
      exact ⟨t, us, rfl, ht, rfl⟩
    · cases h

/-- An alias is refused for its name, behind AS. -/
theorem optionalAlias_stuck {opens : List Word → Prop} {front us : List Token} {r : Refusal}
    (hopens : opens (front.map Token.word ++ [.fixed (.keyword .AS)]))
    (h : optionalAlias us = .error r) : Stuck opens (front ++ us) r := by
  cases us with
  | nil => cases h
  | cons t us =>
    rw [optionalAlias] at h
    split at h
    · next ht =>
      rcases bind_eq_error h with hname | ⟨p, -, hok⟩
      · have hstuck : Stuck opens ((front ++ [t]) ++ us) r := by
          refine (identifier_refuses hname).behind ?_ fun _ =>
            not_endsGroup_append_singleton (by simp [ht])
          rwa [List.map_append, List.map_singleton, word_of_kind ht rfl]
        rwa [List.append_assoc] at hstuck
      · cases hok
    · cases h

section Clauses

variable {n : Nat} {outer : Rule Expr} (hsound : Sound outer Expr.leaves (Inner n))
  (hsees : Sees outer) (houter : Refuses outer (Starting Expr.Canonical))

include hsound houter in
theorem column_refuses : Refuses (column outer) StartingColumn := by
  intro ts r h
  rcases bind_eq_error h with hexpr | ⟨⟨e, us⟩, he, hbehind⟩
  · refine (houter hexpr).mono fun ws ⟨e, more, he, hyield⟩ => ⟨⟨e, none⟩, more, he, ?_⟩
    rw [← hyield]
    simp [Column.leaves, Expr.yield]
  obtain ⟨hgood, read, rfl, hread⟩ := hsound he
  rcases bind_eq_error hbehind with halias | ⟨p, -, hok⟩
  · refine optionalAlias_stuck ?_ halias
    refine ⟨⟨e, some ⟨0, ⟨0, "x"⟩⟩⟩, [⟨.ident, "x"⟩], hgood.canonical, ?_⟩
    rw [hread.map_word]
    simp [Column.leaves, Alias.leaves, Leaf.fixed, Leaf.ofName]
  · cases hok

/-- Columns behind SELECT are those of a clause. -/
theorem starting_select {t : Token} (ht : t.kind = .keyword .SELECT) (xs : NonemptyList Column)
    (hxs : ∀ x ∈ xs.toList, x.expr.Canonical) :
    ∃ (c : SelectClause) (more : List Word), (∀ x ∈ c.columns.toList, x.expr.Canonical) ∧
      c.leaves.map Leaf.word = [t].map Token.word ++
        ((Leaf.list Column.leaves xs.toList).map Leaf.word ++ more) := by
  refine ⟨⟨0, xs⟩, [], hxs, ?_⟩
  rw [List.map_singleton, word_of_kind ht rfl, List.append_nil]
  rfl

theorem startingSelect_nil : StartingSelect [] :=
  .nil (a := ⟨0, ⟨⟨.wildcard 0, none⟩, []⟩⟩)
    (by simpa [NonemptyList.toList] using (isOperand_wildcard 0).2)

include hsound hsees houter in
theorem selectClause_refuses : Refuses (selectClause outer) StartingSelect := by
  intro ts r h
  rcases bind_eq_error h with hselect | ⟨⟨p, us⟩, hselect, hbehind⟩
  · refine (token_refuses _ hselect).mono ?_
    rintro _ rfl
    exact startingSelect_nil
  obtain ⟨t, rfl, ht⟩ := token_eq_ok hselect
  have hstuck : Stuck StartingSelect ([t] ++ us) r := by
    rcases bind_eq_error hbehind with hcolumns | ⟨⟨columns, vs⟩, hcolumns, hend⟩
    · exact commaList_stuck (column_sound hsound) (fun _ hx => hx.canonical) (starting_select ht)
        (column_sees hsees) (column_refuses hsound houter)
        (@not_endsGroup_append_singleton [] t (by simp [ht])) hcolumns
    · dsimp only at hend
      split at hend <;> cases hend
      exact commaList_stuck_behind (column_sound hsound) (fun _ hx => hx.canonical)
        (starting_select ht) (fun x _ => Tidy.gathers.column x.expr.tidy_yield) hcolumns
        (.here rfl _ _)
  exact hstuck

end Clauses

/-! ### Tables -/

section Tables

variable {ws : List Word} {front us : List Token} {r : Refusal}

/-- A table may stand where one must be next. -/
theorem afterTable_append (h : TableExpected ws) (x : Table) :
    AfterTable (ws ++ x.leaves.map Leaf.word) := by
  obtain ⟨c, tables, hc, rfl⟩ := h
  obtain ⟨xs, hxs⟩ := exists_toList_eq tables x
  refine ⟨c, ⟨0, xs⟩, hc, ?_⟩
  rw [FromClause.leaves, hxs, Leaf.list_append_singleton]
  simp [Leaf.fixed]

theorem starting_of_afterTable (h : AfterTable ws) : StartingStatement ws := by
  obtain ⟨c, f, hc, rfl⟩ := h
  exact ⟨Statement.ofClauses c f, [], Statement.canonical_ofClauses hc,
    by rw [Statement.yield_ofClauses, List.append_nil]⟩

theorem starting_of_tableExpected (h : TableExpected ws) : StartingStatement ws :=
  (starting_of_afterTable (afterTable_append h ⟨⟨0, "x"⟩, none⟩)).of_append

theorem starting_of_select (h : StartingSelect ws) : StartingStatement ws := by
  obtain ⟨c, more, hc, hwords⟩ := h
  let f : FromClause := ⟨0, ⟨⟨⟨0, "x"⟩, none⟩, []⟩⟩
  refine ⟨Statement.ofClauses c f, more ++ f.leaves.map Leaf.word,
    Statement.canonical_ofClauses hc, ?_⟩
  rw [Statement.yield_ofClauses, ← List.append_assoc, ← hwords]

section Table

variable {read : List Token} (hfront : TableExpected (front.map Token.word))
include hfront

theorem afterTable_of_spells {x : Table} (hread : Spells read x.leaves) :
    AfterTable ((front ++ read).map Token.word) := by
  rw [List.map_append, hread.map_word]
  exact afterTable_append hfront x

/-- Behind the name of a table there may be an alias. -/
theorem tableAlias_stuck {name : Name} (hread : Spells read [Leaf.ofName name])
    (h : optionalAlias us = .error r) : Stuck StartingStatement (front ++ read ++ us) r := by
  have hstarting := starting_of_afterTable
    (afterTable_append hfront ⟨name, some ⟨0, ⟨0, "x"⟩⟩⟩)
  have hwords : front.map Token.word ++
      (Table.leaves ⟨name, some ⟨0, ⟨0, "x"⟩⟩⟩).map Leaf.word =
        (front ++ read).map Token.word ++ [.fixed (.keyword .AS)] ++ [⟨.ident, "x"⟩] := by
    rw [List.map_append, hread.map_word]
    simp [Table.leaves, Alias.leaves, Leaf.fixed, Leaf.ofName]
  rw [hwords] at hstarting
  exact optionalAlias_stuck hstarting.of_append h

theorem table_rejects (hgroup : ¬EndsGroup front) (h : table us = .error r) :
    Rejects (front ++ us) r := by
  rcases bind_eq_error h with hsubquery | ⟨_, -, hnamed⟩
  · obtain ⟨l, vs, rfl, hl, rfl⟩ := refuse_eq_error hsubquery
    exact .subquery rfl hfront (eq_of_beq hl)
  rcases bind_eq_error hnamed with hname | ⟨⟨name, vs⟩, hname, haliased⟩
  · exact .stuck ((identifier_refuses hname).behind (starting_of_tableExpected hfront)
      fun _ => hgroup)
  obtain ⟨-, read, rfl, hread⟩ := identifier_sound hname
  rw [← List.append_assoc]
  rcases bind_eq_error haliased with halias | ⟨⟨a, ws⟩, halias, hchecked⟩
  · exact .stuck (tableAlias_stuck hfront hread halias)
  obtain ⟨-, readAlias, rfl, hreadAlias⟩ := optionalAlias_sound halias
  rcases bind_eq_error hchecked with hjoin | ⟨_, -, hok⟩
  · obtain ⟨t, vs, rfl, ht, rfl⟩ := refuse_eq_error hjoin
    have hreadTable : Spells (read ++ readAlias) (Table.leaves ⟨name, a⟩) :=
      List.rel_append hread hreadAlias
    exact @Rejects.join _ (front ++ (read ++ readAlias)) _ _ (by simp)
      (afterTable_of_spells hfront hreadTable) ht
  · cases hok

end Table

section From

variable {c : SelectClause} (hc : ∀ x ∈ c.columns.toList, x.expr.Canonical)
  (hfront : Spells front c.leaves)
include hc hfront

theorem tableExpected_of_spells {t : Token} (ht : t.kind = .keyword .FROM) {tables : List Table}
    {read : List Token} (hread : Spells read (tables.flatMap fun x => x.leaves ++ [.comma])) :
    TableExpected ((front ++ [t] ++ read).map Token.word) := by
  refine ⟨c, tables, hc, ?_⟩
  rw [List.map_append, List.map_append, hfront.map_word, hread.map_word, List.map_singleton,
    word_of_kind ht rfl, List.append_assoc]
  rfl

/-- Tables behind a SELECT clause and FROM are those of a statement. -/
theorem starting_from {t : Token} (ht : t.kind = .keyword .FROM) (xs : NonemptyList Table) :
    ∃ (s : Statement) (more : List Word), s.Canonical ∧
      s.yield = (front ++ [t]).map Token.word ++
        ((Leaf.list Table.leaves xs.toList).map Leaf.word ++ more) := by
  refine ⟨Statement.ofClauses c ⟨0, xs⟩, [], Statement.canonical_ofClauses hc, ?_⟩
  rw [Statement.yield_ofClauses, List.map_append, hfront.map_word, List.map_singleton,
    word_of_kind ht rfl, List.append_assoc, List.append_nil]
  rfl

theorem fromClause_rejects (h : fromClause us = .error r) : Rejects (front ++ us) r := by
  have htidy : Tidy (front.map Token.word) := by
    rw [hfront.map_word]
    exact (Tidy.gathers.selectClause fun x _ => x.expr.tidy_yield).whole
  rcases bind_eq_error h with hfrom | ⟨⟨p, us⟩, hfrom, hbehind⟩
  · have hstarting : StartingSelect (front.map Token.word) :=
      ⟨c, [], hc, by rw [hfront.map_word, List.append_nil]⟩
    exact .stuck ((token_refuses _ hfrom).behind (starting_of_select hstarting) fun _ =>
      @not_endsGroup_of_tidy [] _ htidy)
  obtain ⟨t, rfl, ht⟩ := token_eq_ok hfrom
  rcases bind_eq_error hbehind with htables | ⟨⟨tables, vs⟩, htables, hend⟩
  · obtain ⟨xs, read, vs, -, rfl, hread, hcomma, htable⟩ :=
      commaList_eq_error table_sound table_sees htables
    have hgroup : ¬EndsGroup (front ++ [t] ++ read) := not_endsGroup_of_commas
      (not_endsGroup_append_singleton (by simp [ht])) hcomma
    simpa using table_rejects (tableExpected_of_spells hc hfront ht hread) hgroup htable
  · dsimp only at hend
    split at hend <;> cases hend
    have hstuck : Stuck StartingStatement ((front ++ [t]) ++ us)
        ⟨.unexpected .moreTablesOrEnd, vs⟩ :=
      commaList_stuck_behind table_sound (fun _ _ => trivial)
        (fun xs _ => starting_from hc hfront ht xs) (fun x _ => Tidy.gathers.table x) htables
        (.here rfl _ _)
    rw [List.append_assoc] at hstuck
    exact .stuck hstuck

end From

end Tables

/-! ### The clauses that may be left out -/

section Clauses

variable {n : Nat} {outer : Rule Expr} (hsound : Sound outer Expr.leaves (Inner n))
  (hsees : Sees outer) (houter : Refuses outer (Starting Expr.Canonical))

include houter in
theorem whereClause_refuses : Refuses (whereClause outer) StartingWhere := by
  intro ts r h
  cases ts with
  | nil => cases h
  | cons t ts =>
    rw [whereClause] at h
    split at h
    · next ht =>
      rcases bind_eq_error h with hcond | ⟨p, -, hok⟩
      · have hstuck : Stuck StartingWhere ([t] ++ ts) r := by
          refine (houter hcond).lift (fun ws hws => hws.extend fun e he => ?_) fun _ =>
            @not_endsGroup_append_singleton [] t (by simp [ht])
          refine ⟨some ⟨0, e⟩, [], by simpa using he, ?_⟩
          simp [word_of_kind ht rfl, WhereClause.leaves, Leaf.fixed, Expr.yield]
        exact hstuck
      · cases hok
    · cases h

/-- Items behind the keyword and BY are those of a clause. -/
theorem starting_by {k : Keyword} {t u : Token} (ht : t.kind = .keyword k)
    (hu : u.kind = .keyword .BY) (xs : NonemptyList Expr) (hxs : ∀ x ∈ xs.toList, x.Canonical) :
    ∃ (c : Option ByClause) (more : List Word), (∀ b ∈ c, ∀ e ∈ b.items.toList, e.Canonical) ∧
      (c.elim [] (ByClause.leaves k)).map Leaf.word = [t, u].map Token.word ++
        ((Leaf.list Expr.leaves xs.toList).map Leaf.word ++ more) := by
  refine ⟨some ⟨0, 0, xs⟩, [], by simpa using hxs, ?_⟩
  rw [List.map_cons, List.map_singleton, word_of_kind ht rfl, word_of_kind hu rfl,
    List.append_nil]
  rfl

theorem startingBy_keyword (k : Keyword) : StartingBy k [.fixed (.keyword k)] :=
  ⟨some ⟨0, 0, ⟨.wildcard 0, []⟩⟩, [.fixed (.keyword .BY), .fixed .star],
    by simpa [NonemptyList.toList] using (isOperand_wildcard 0).2, rfl⟩

include hsound hsees houter in
theorem byClause_refuses (k : Keyword) : Refuses (byClause outer k) (StartingBy k) := by
  intro ts r h
  cases ts with
  | nil => cases h
  | cons t ts =>
    rw [byClause] at h
    split at h
    · next ht =>
      rcases bind_eq_error h with hby | ⟨⟨p, us⟩, hby, hitems⟩
      · have hkeyword : StartingBy k ([t].map Token.word) := by
          rw [List.map_singleton, word_of_kind ht rfl]
          exact startingBy_keyword k
        have hstuck : Stuck (StartingBy k) ([t] ++ ts) r :=
          (token_refuses _ hby).behind hkeyword fun _ =>
            @not_endsGroup_append_singleton [] t (by simp [ht])
        exact hstuck
      obtain ⟨u, rfl, hu⟩ := token_eq_ok hby
      rcases bind_eq_error hitems with hrefused | ⟨p, -, hok⟩
      · have hstuck : Stuck (StartingBy k) ([t, u] ++ us) r :=
          commaList_stuck hsound (fun _ he => he.canonical) (starting_by ht hu) hsees houter
            (@not_endsGroup_append_singleton [t] u (by simp [hu])) hrefused
        exact hstuck
      · cases hok
    · cases h

/-! ### Statements -/

/-- A statement does not end like a group. -/
theorem not_endsGroup_of_statement {s : Statement} {read : List Token}
    (h : read.map Token.word = s.yield) : ¬EndsGroup read := by
  have htidy : Tidy (read.map Token.word) := by
    rw [h]
    exact s.tidy_yield
  exact @not_endsGroup_of_tidy [] _ htidy

section Behind

variable {c : SelectClause} {f : FromClause} {w : Option WhereClause} {g : Option ByClause}
  {front ts : List Token} {r : Refusal}

/-- A clause that may stand behind a statement is refused as a part of one. -/
theorem clause_stuck {α : Type} {words : α → List Word} {good : α → Prop} {s : Statement}
    (hfront : front.map Token.word = s.yield) (h : Stuck (Begins words good) ts r)
    (hext : ∀ a, good a → ∃ s' : Statement, s'.Canonical ∧ s'.yield = s.yield ++ words a) :
    Stuck StartingStatement (front ++ ts) r := by
  refine h.lift (fun ws hws => hws.extend fun a ha => ?_) fun _ => not_endsGroup_of_statement hfront
  obtain ⟨s', hs', hyield⟩ := hext a ha
  exact ⟨s', [], hs', by rw [hyield, hfront, List.append_nil]⟩

include houter in
theorem whereClause_stuck (hs : (Statement.mk c f none none none []).Canonical)
    (hfront : front.map Token.word = (Statement.mk c f none none none []).yield)
    (h : whereClause outer ts = .error r) : Stuck StartingStatement (front ++ ts) r := by
  obtain ⟨hc, -, -, -⟩ := Statement.forall_exprs_iff.1 hs
  refine clause_stuck hfront (whereClause_refuses houter h) fun w hw => ?_
  refine ⟨⟨c, f, w, none, none, []⟩,
    Statement.forall_exprs_iff.2 ⟨hc, hw, by simp, by simp⟩, ?_⟩
  simp [Statement.yield, Statement.leaves]

include hsound hsees houter

theorem groupBy_stuck (hs : (Statement.mk c f w none none []).Canonical)
    (hfront : front.map Token.word = (Statement.mk c f w none none []).yield)
    (h : byClause outer .GROUP ts = .error r) : Stuck StartingStatement (front ++ ts) r := by
  obtain ⟨hc, hw, -, -⟩ := Statement.forall_exprs_iff.1 hs
  refine clause_stuck hfront (byClause_refuses hsound hsees houter _ h) fun g hg => ?_
  refine ⟨⟨c, f, w, g, none, []⟩, Statement.forall_exprs_iff.2 ⟨hc, hw, hg, by simp⟩, ?_⟩
  simp [Statement.yield, Statement.leaves]

theorem orderBy_stuck (hs : (Statement.mk c f w g none []).Canonical)
    (hfront : front.map Token.word = (Statement.mk c f w g none []).yield)
    (h : byClause outer .ORDER ts = .error r) : Stuck StartingStatement (front ++ ts) r := by
  obtain ⟨hc, hw, hg, -⟩ := Statement.forall_exprs_iff.1 hs
  refine clause_stuck hfront (byClause_refuses hsound hsees houter _ h) fun o ho => ?_
  refine ⟨⟨c, f, w, g, o, []⟩, Statement.forall_exprs_iff.2 ⟨hc, hw, hg, ho⟩, ?_⟩
  simp [Statement.yield, Statement.leaves]

end Behind

include hsound hsees houter in
theorem statement_rejects {ts : List Token} {r : Refusal} (h : statement outer ts = .error r) :
    Rejects ts r := by
  unfold statement at h
  split at h
  · rcases bind_eq_error h with hstart | ⟨_, hstart, -⟩ <;> cases hstart
    exact .stuck (.here (starting_of_select startingSelect_nil) _ _)
  rcases bind_eq_error h with hselect | ⟨⟨c, us⟩, hselect, hafterSelect⟩
  · exact .stuck ((selectClause_refuses hsound hsees houter hselect).mono
      fun _ => starting_of_select)
  obtain ⟨hcGood, readSelect, rfl, hreadSelect⟩ := selectClause_sound hsound hselect
  have hc : ∀ x ∈ c.columns.toList, x.expr.Canonical := fun x hx => (hcGood x hx).canonical
  rcases bind_eq_error hafterSelect with hfrom | ⟨⟨f, vs⟩, hfrom, hafterFrom⟩
  · exact fromClause_rejects hc hreadSelect hfrom
  obtain ⟨-, readFrom, rfl, hreadFrom⟩ := fromClause_sound hfrom
  -- What has been read is itself a statement from here on.
  have hread : (readSelect ++ readFrom).map Token.word =
      (Statement.mk c f none none none []).yield := by
    rw [List.map_append, hreadSelect.map_word, hreadFrom.map_word]
    exact (Statement.yield_ofClauses c f).symm
  rw [← List.append_assoc]
  rcases bind_eq_error hafterFrom with hwhere | ⟨⟨w, ws⟩, hwhere, hafterWhere⟩
  · exact .stuck (whereClause_stuck houter (Statement.canonical_ofClauses hc) hread hwhere)
  obtain ⟨hwGood, readWhere, rfl, hreadWhere⟩ := whereClause_sound hsound hwhere
  have hw : ∀ x ∈ w, x.cond.Canonical := fun x hx => (hwGood x hx).canonical
  have hread' : (readSelect ++ readFrom ++ readWhere).map Token.word =
      (Statement.mk c f w none none []).yield := by
    rw [List.map_append, hread, hreadWhere.map_word]
    simp [Statement.yield, Statement.leaves]
  rw [← List.append_assoc]
  rcases bind_eq_error hafterWhere with hgroup | ⟨⟨g, xs⟩, hgroup, hafterGroup⟩
  · exact .stuck (groupBy_stuck hsound hsees houter
      (Statement.forall_exprs_iff.2 ⟨hc, hw, by simp, by simp⟩) hread' hgroup)
  obtain ⟨hgGood, readGroup, rfl, hreadGroup⟩ := byClause_sound hsound .GROUP hgroup
  have hg : ∀ b ∈ g, ∀ e ∈ b.items.toList, e.Canonical := fun b hb e he =>
    (hgGood b hb e he).canonical
  have hread'' : (readSelect ++ readFrom ++ readWhere ++ readGroup).map Token.word =
      (Statement.mk c f w g none []).yield := by
    rw [List.map_append, hread', hreadGroup.map_word]
    simp [Statement.yield, Statement.leaves]
  rw [← List.append_assoc]
  rcases bind_eq_error hafterGroup with horder | ⟨⟨o, ys⟩, -, hok⟩
  · exact .stuck (orderBy_stuck hsound hsees houter
      (Statement.forall_exprs_iff.2 ⟨hc, hw, hg, by simp⟩) hread'' horder)
  · cases hok

end Clauses

/-- What is refused as a sentence comes behind tokens that could have gone on. -/
theorem sentenceOf_rejects {n : Nat} {ts : List Token} {r : Refusal}
    (h : sentenceOf (expression n) ts = .error r) : Rejects ts r := by
  rcases bind_eq_error h with hstatement | ⟨⟨s, us⟩, hstatement, hafter⟩
  · exact statement_rejects (expression_sound n) (expression_sees n) (expression_refuses n)
      hstatement
  obtain ⟨⟨-, hgood⟩, read, rfl, hread⟩ := statement_sound (expression_sound n) hstatement
  have hs : s.Canonical := fun e he => (hgood e he).canonical
  have hwords : read.map Token.word = s.yield := hread.map_word
  rcases bind_eq_error hafter with hending | ⟨_, -, hok⟩
  · cases us with
    | nil => cases hending
    | cons t us =>
      rw [ending] at hending
      split at hending
      · next ht =>
        obtain ⟨u, vs, rfl, -, rfl⟩ := refuse_eq_error hending
        refine @Rejects.multiple _ (read ++ [t]) _ _ (by simp) ⟨s, hs, ?_⟩
        rw [List.map_append, hwords, List.map_singleton, word_of_kind ht rfl]
      · cases hending
        exact .stuck ((Stuck.here rfl _ _).behind
          ⟨s, [], hs, by rw [hwords, List.append_nil]⟩ fun _ => not_endsGroup_of_statement hwords)
  · cases hok

end Grammar

end SqlFormatter
