import SqlFormatter.Proofs.Grammar.Completeness.Statement
import SqlFormatter.Proofs.Grammar.Lookahead
import SqlFormatter.Proofs.Grammar.Sentence

/-!
# SqlFormatter.Proofs.Grammar.Refusal.Construct

A construct that is not supported is recognised where it starts: a join behind a table
(`sentenceOf_of_afterTable`), a subquery in the place of a table (`sentenceOf_of_tableExpected`),
and whatever stands behind the semicolon (`sentenceOf_of_afterSemicolon`). What is in front of it is
read because the grammar is complete, unless it nests too deep.
-/

namespace SqlFormatter

namespace Grammar

/-- The outcome is the refusal `r`, or that of deeper nesting. -/
def RefusedAs {α : Type} (r : Refusal) (outcome : Except Refusal α) : Prop :=
  outcome = .error r ∨ ∃ ts, outcome = .error ⟨.unexpected .shallowerNesting, ts⟩

theorem Yields.refusedAs {α β : Type} {good : α → Prop} {fits : Prop}
    {next : α → Except Refusal β} {outcome : Except Refusal β} {r : Refusal}
    (h : Yields good fits next outcome) (hnext : ∀ a, good a → next a = .error r) :
    RefusedAs r outcome := by
  by_cases hfits : fits
  · obtain ⟨a, ha, rfl⟩ := h.1 hfits
    exact Or.inl (hnext a ha)
  · exact Or.inr (h.2 hfits)

theorem RefusedAs.bind {α β : Type} {r : Refusal} {outcome : Except Refusal α}
    (h : RefusedAs r outcome) (f : α → Except Refusal β) : RefusedAs r (outcome >>= f) := by
  rcases h with rfl | ⟨ts, rfl⟩
  · exact Or.inl rfl
  · exact Or.inr ⟨ts, rfl⟩

/-! ### Tables -/

section Tables

variable {ts us : List Token} {r : Refusal}

/-- Items are refused behind a comma as a list is. -/
theorem commaItems_of_commaList {α : Type} {item : Rule α} (hsees : Sees item) {t : Token}
    (ht : t.kind = .comma) (h : commaList item ts = .error r) :
    commaItems item (t :: ts) = .error r := by
  rw [commaItems_cons hsees ht]
  rcases bind_eq_error h with hfirst | ⟨⟨x, us⟩, hx, hothers⟩
  · rw [hfirst]
    rfl
  rcases bind_eq_error hothers with hrefused | ⟨p, -, hok⟩
  · rw [hx]
    show commaItems item us >>= _ = _
    rw [hrefused]
    rfl
  · cases hok

/-- A list of tables is refused as the table behind some with a comma each is. -/
theorem commaList_table_eq_error (tables : List Table)
    (hstarts : Starts ts ((tables.flatMap fun x => x.leaves ++ [.comma]).map Leaf.word) us)
    (h : table us = .error r) : commaList table ts = .error r := by
  induction tables generalizing ts with
  | nil =>
    obtain rfl := starts_nil.1 hstarts
    rw [commaList, h]
    rfl
  | cons x xs ih =>
    rw [List.flatMap_cons, List.append_assoc, List.map_append] at hstarts
    obtain ⟨vs, hx, hxs⟩ := starts_append.1 hstarts
    obtain ⟨t, ws, rfl, ht, hws⟩ := starts_fixed hxs
    have hnext : Next (fun k => k ≠ .keyword .AS ∧ k ≠ .ident) (t :: ws) :=
      next_cons (by simp [ht])
    obtain ⟨y, -, hy⟩ := (table_complete x hx hnext).1 trivial
    rw [commaList, hy]
    show commaItems table (t :: ws) >>= _ = _
    rw [commaItems_of_commaList table_sees ht (ih hws)]
    rfl

/-- A subquery is refused in the place of a table. -/
theorem table_of_leftParen {l : Token} (hl : l.kind = .leftParen) (us : List Token) :
    table (l :: us) = .error ⟨.unsupported .subquery l.pos, l :: us⟩ := by
  rw [table, refuse, if_pos (beq_iff_eq.2 hl)]
  rfl

/-- A join is refused behind a table. -/
theorem table_of_startsJoin (x : Table) {t : Token} (ht : startsJoin t)
    (hstarts : Starts ts (x.leaves.map Leaf.word) (t :: us)) :
    table ts = .error ⟨.unsupported .join t.pos, t :: us⟩ := by
  have hident : t.kind = .ident := by
    rw [startsJoin, Bool.and_eq_true] at ht
    exact eq_of_beq ht.1
  obtain ⟨u, vs, rfl, hu, -, hstarts⟩ := starts_text (k := .ident) rfl hstarts
  have hsubquery : refuse .subquery (·.kind == .leftParen) (u :: vs) = .ok () :=
    refuse_eq_ok_of_next (by simp [hu])
  have hnext : Next (· ≠ .keyword .AS) (t :: us) := next_cons (by simp [hident])
  obtain ⟨a, -, ha⟩ := (optionalAlias_complete x.asName hstarts hnext).1 trivial
  have hjoin : refuse .join startsJoin (t :: us) = .error ⟨.unsupported .join t.pos, t :: us⟩ :=
    if_pos ht
  rw [table, hsubquery, identifier_of_kind hu]
  show optionalAlias vs >>= _ = _
  rw [ha]
  show refuse .join startsJoin (t :: us) >>= _ = _
  rw [hjoin]
  rfl

end Tables

/-! ### Statements -/

section Statements

variable {n : Nat} {ts us : List Token} {r : Refusal}

/-- Behind the SELECT clause a statement is refused as its tables are. -/
theorem sentenceOf_of_tables {c : SelectClause} (hc : ∀ x ∈ c.columns.toList, x.expr.Canonical)
    (hstarts : Starts ts (c.leaves.map Leaf.word ++ [.fixed (.keyword .FROM)]) us)
    (h : commaList table us = .error r) : RefusedAs r (sentenceOf (expression n) ts) := by
  obtain ⟨vs, hselect, hfrom⟩ := starts_append.1 hstarts
  obtain ⟨u, us', rfl, hu, hus⟩ := starts_fixed hfrom
  obtain rfl := starts_nil.1 hus
  have hstartsFrom : startsWith (.keyword .FROM) (u :: us') := by
    rw [startsWith, hu]
    rfl
  have hclause : fromClause (u :: us') = .error r := by
    rw [fromClause, keyword_of_kind hu]
    show commaList table us' >>= _ = _
    rw [h]
    rfl
  obtain ⟨t, ws, rfl, ht, -⟩ := starts_fixed hselect
  have hinner : ∀ x ∈ c.columns.toList, InnerCompletes n x.expr := fun x hx =>
    expression_complete (hc x hx) n
  have hstatement : RefusedAs r (statement (expression n) (t :: ws)) := by
    unfold statement
    rw [startsWith, ht, beq_self_eq_true, Bool.not_true, if_neg Bool.false_ne_true]
    refine ((selectClause_complete hinner hselect hstartsFrom).bind _).refusedAs fun c' _ => ?_
    show fromClause (u :: us') >>= _ = _
    rw [hclause]
    rfl
  exact hstatement.bind _

variable {read rest : List Token} {t : Token}

/-- A join is refused behind a table. -/
theorem sentenceOf_of_afterTable (h : AfterTable (read.map Token.word)) (ht : startsJoin t) :
    RefusedAs ⟨.unsupported .join t.pos, t :: rest⟩
      (sentenceOf (expression n) (read ++ t :: rest)) := by
  obtain ⟨c, f, hc, hwords⟩ := h
  -- The last table is the one that the join is behind.
  obtain ⟨tables, x, htables⟩ : ∃ tables x, f.tables.toList = tables ++ [x] :=
    ⟨_, _, (List.dropLast_append_getLast f.tables.toList_ne_nil).symm⟩
  have hstarts : Starts (read ++ t :: rest)
      (c.leaves.map Leaf.word ++ [.fixed (.keyword .FROM)] ++
        ((tables.flatMap fun x => x.leaves ++ [.comma]).map Leaf.word ++ x.leaves.map Leaf.word))
      (t :: rest) := by
    refine ⟨read, rfl, ?_⟩
    rw [hwords, FromClause.leaves, htables, Leaf.list_append_singleton]
    simp [Leaf.fixed]
  obtain ⟨us, hselect, hlist⟩ := starts_append.1 hstarts
  obtain ⟨vs, hfront, hlast⟩ := starts_append.1 hlist
  exact sentenceOf_of_tables hc hselect
    (commaList_table_eq_error tables hfront (table_of_startsJoin x ht hlast))

/-- A subquery is refused in the place of a table. -/
theorem sentenceOf_of_tableExpected (h : TableExpected (read.map Token.word))
    (ht : t.kind = .leftParen) :
    RefusedAs ⟨.unsupported .subquery t.pos, t :: rest⟩
      (sentenceOf (expression n) (read ++ t :: rest)) := by
  obtain ⟨c, tables, hc, hwords⟩ := h
  have hstarts : Starts (read ++ t :: rest)
      (c.leaves.map Leaf.word ++ [.fixed (.keyword .FROM)] ++
        (tables.flatMap fun x => x.leaves ++ [.comma]).map Leaf.word) (t :: rest) :=
    ⟨read, rfl, by rw [hwords, List.append_assoc]; rfl⟩
  obtain ⟨us, hselect, htables⟩ := starts_append.1 hstarts
  exact sentenceOf_of_tables hc hselect
    (commaList_table_eq_error tables htables (table_of_leftParen ht rest))

/-- Whatever stands behind the semicolon is refused. -/
theorem sentenceOf_of_afterSemicolon (h : AfterSemicolon (read.map Token.word)) :
    RefusedAs ⟨.unsupported .multipleStatements t.pos, t :: rest⟩
      (sentenceOf (expression n) (read ++ t :: rest)) := by
  obtain ⟨s, hs, hwords⟩ := h
  have hstarts : Starts (read ++ t :: rest) (s.yield ++ [.fixed .semicolon]) (t :: rest) :=
    ⟨read, rfl, hwords⟩
  obtain ⟨us, hstatement, hsemicolon⟩ := starts_append.1 hstarts
  obtain ⟨u, vs, rfl, hu, hvs⟩ := starts_fixed hsemicolon
  obtain rfl := starts_nil.1 hvs
  have hnext : Next (· ∈ [Kind.semicolon]) (u :: t :: rest) :=
    next_cons (by rw [hu]; exact List.mem_singleton_self _)
  refine ((statement_complete hs hstatement hnext).bind _).refusedAs fun s' _ => ?_
  show ending (u :: t :: rest) >>= _ = _
  rw [ending, if_pos hu]
  rfl

end Statements

end Grammar

end SqlFormatter
