import SqlFormatter.Grammar.Statement
import SqlFormatter.Proofs.Grammar.Soundness.Expression

/-!
# SqlFormatter.Proofs.Grammar.Soundness.Statement

What the rules for statements read. As for expressions there is one lemma for each rule. The main
result is `sentenceOf_sound`: the tokens of a sentence are those of its statement, and perhaps a
semicolon.
-/

namespace SqlFormatter

namespace Grammar

section Clauses

variable {n : Nat} {outer : Rule Expr}

theorem optionalAlias_sound :
    Sound optionalAlias (fun a => a.elim [] Alias.leaves) (fun _ => True) := by
  intro ts a rest h
  cases ts with
  | nil =>
    cases h
    exact ⟨trivial, .nil []⟩
  | cons t ts =>
    rw [optionalAlias] at h
    split at h
    · next has =>
      obtain ⟨⟨name, us⟩, hname, h⟩ := bind_eq_ok h
      cases h
      exact ⟨trivial, (identifier_sound hname).2.cons (Leaf.marks_fixed has rfl)⟩
    · cases h
      exact ⟨trivial, .nil _⟩

theorem column_sound (houter : Sound outer Expr.leaves (Inner n)) :
    Sound (column outer) Column.leaves (fun c => Inner n c.expr) := by
  intro ts c rest h
  obtain ⟨⟨e, us⟩, he, h⟩ := bind_eq_ok h
  obtain ⟨⟨a, vs⟩, ha, h⟩ := bind_eq_ok h
  cases h
  obtain ⟨hgood, hread⟩ := houter he
  exact ⟨hgood, hread.append (optionalAlias_sound ha).2⟩

theorem selectClause_sound (houter : Sound outer Expr.leaves (Inner n)) :
    Sound (selectClause outer) SelectClause.leaves
      (fun c => ∀ x ∈ c.columns.toList, Inner n x.expr) := by
  intro ts c rest h
  obtain ⟨⟨p, us⟩, hselect, h⟩ := bind_eq_ok h
  obtain ⟨⟨columns, vs⟩, hcolumns, h⟩ := bind_eq_ok h
  obtain ⟨hgood, hread⟩ := commaList_sound (column_sound houter) hcolumns
  dsimp only at h
  split at h <;> cases h
  exact ⟨hgood, (keyword_sound .SELECT hselect).2.append hread⟩

/-- A check reads nothing. -/
theorem refuse_eq_ok {construct : Construct} {starts : Token → Bool} {ts : List Token} {u : Unit}
    (h : refuse construct starts ts = .ok u) : ts.head?.all (fun t => !starts t) := by
  cases ts with
  | nil => rfl
  | cons t ts =>
    rw [refuse] at h
    split at h
    · cases h
    · next hstarts => simpa using hstarts

theorem table_sound : Sound table Table.leaves (fun _ => True) := by
  intro ts c rest h
  obtain ⟨_, -, h⟩ := bind_eq_ok h
  obtain ⟨⟨name, us⟩, hname, h⟩ := bind_eq_ok h
  obtain ⟨⟨a, vs⟩, ha, h⟩ := bind_eq_ok h
  obtain ⟨_, -, h⟩ := bind_eq_ok h
  cases h
  exact ⟨trivial, (identifier_sound hname).2.append (optionalAlias_sound ha).2⟩

theorem fromClause_sound : Sound fromClause FromClause.leaves (fun _ => True) := by
  intro ts c rest h
  obtain ⟨⟨p, us⟩, hfrom, h⟩ := bind_eq_ok h
  obtain ⟨⟨tables, vs⟩, htables, h⟩ := bind_eq_ok h
  obtain ⟨-, hread⟩ := commaList_sound table_sound htables
  dsimp only at h
  split at h <;> cases h
  exact ⟨trivial, (keyword_sound .FROM hfrom).2.append hread⟩

theorem whereClause_sound (houter : Sound outer Expr.leaves (Inner n)) :
    Sound (whereClause outer) (fun c => c.elim [] WhereClause.leaves)
      (fun c => ∀ w ∈ c, Inner n w.cond) := by
  intro ts c rest h
  cases ts with
  | nil =>
    cases h
    exact ⟨by simp, .nil []⟩
  | cons t ts =>
    rw [whereClause] at h
    split at h
    · next hwhere =>
      obtain ⟨⟨cond, us⟩, hcond, h⟩ := bind_eq_ok h
      cases h
      obtain ⟨hgood, hread⟩ := houter hcond
      exact ⟨by simpa using hgood, hread.cons (Leaf.marks_fixed hwhere rfl)⟩
    · cases h
      exact ⟨by simp, .nil _⟩

theorem byClause_sound (houter : Sound outer Expr.leaves (Inner n)) (k : Keyword) :
    Sound (byClause outer k) (fun c => c.elim [] (ByClause.leaves k))
      (fun c => ∀ b ∈ c, ∀ e ∈ b.items.toList, Inner n e) := by
  intro ts c rest h
  cases ts with
  | nil =>
    cases h
    exact ⟨by simp, .nil []⟩
  | cons t ts =>
    rw [byClause] at h
    split at h
    · next hk =>
      obtain ⟨⟨q, us⟩, hby, h⟩ := bind_eq_ok h
      obtain ⟨⟨items, vs⟩, hitems, h⟩ := bind_eq_ok h
      cases h
      obtain ⟨hgood, hread⟩ := commaList_sound houter hitems
      exact ⟨by simpa using hgood,
        ((keyword_sound .BY hby).2.append hread).cons (Leaf.marks_fixed hk rfl)⟩
    · cases h
      exact ⟨by simp, .nil _⟩

theorem statement_sound (houter : Sound outer Expr.leaves (Inner n)) :
    Sound (statement outer) Statement.leaves
      (fun s => s.comments = [] ∧ ∀ e ∈ s.exprs, Inner n e) := by
  intro ts s rest h
  unfold statement at h
  split at h
  · obtain ⟨_, hstart, -⟩ := bind_eq_ok h
    cases hstart
  obtain ⟨⟨select, us⟩, hselect, h⟩ := bind_eq_ok h
  obtain ⟨⟨tables, vs⟩, hfrom, h⟩ := bind_eq_ok h
  obtain ⟨⟨cond, ws⟩, hwhere, h⟩ := bind_eq_ok h
  obtain ⟨⟨groupBy, xs⟩, hgroup, h⟩ := bind_eq_ok h
  obtain ⟨⟨orderBy, ys⟩, horder, h⟩ := bind_eq_ok h
  cases h
  obtain ⟨hselectGood, hreadSelect⟩ := selectClause_sound houter hselect
  obtain ⟨-, hreadFrom⟩ := fromClause_sound hfrom
  obtain ⟨hwhereGood, hreadWhere⟩ := whereClause_sound houter hwhere
  obtain ⟨hgroupGood, hreadGroup⟩ := byClause_sound houter .GROUP hgroup
  obtain ⟨horderGood, hreadOrder⟩ := byClause_sound houter .ORDER horder
  exact ⟨⟨rfl, Statement.forall_exprs_iff.2 ⟨hselectGood, hwhereGood, hgroupGood, horderGood⟩⟩,
    (((hreadSelect.append hreadFrom).append hreadWhere).append hreadGroup).append hreadOrder⟩

end Clauses

/-- Behind a statement there is nothing, or one semicolon. -/
theorem ending_eq_ok {ts : List Token} {u : Unit} (h : ending ts = .ok u) :
    ts.map Token.word = [] ∨ ts.map Token.word = [.fixed .semicolon] := by
  cases ts with
  | nil => exact Or.inl rfl
  | cons t ts =>
    rw [ending] at h
    split at h
    · next hsemicolon =>
      have hnone := refuse_eq_ok h
      cases ts with
      | nil =>
        refine Or.inr ?_
        simp [Token.word, Word.of, Word.fixed, hsemicolon, Kind.keepsText]
      | cons u us => simp at hnone
    · cases h

/-- The tokens of a sentence are those of its statement, at the positions that the statement has
for them, and then perhaps a semicolon. -/
theorem sentenceOf_sound {n : Nat} {ts : List Token} {s : Statement}
    (h : sentenceOf (expression n) ts = .ok s) :
    s.comments = [] ∧ s.Canonical ∧ s.nesting ≤ n ∧ ∃ rest, Reads ts s.leaves rest ∧
      (rest.map Token.word = [] ∨ rest.map Token.word = [.fixed .semicolon]) := by
  obtain ⟨⟨s, rest⟩, hstatement, h⟩ := bind_eq_ok h
  obtain ⟨_, hending, h⟩ := bind_eq_ok h
  cases h
  obtain ⟨⟨hcomments, hgood⟩, hread⟩ := statement_sound (expression_sound n) hstatement
  exact ⟨hcomments, fun e he => (hgood e he).canonical,
    Statement.nesting_le_iff.2 fun e he => (hgood e he).nesting_lt, rest, hread,
    ending_eq_ok hending⟩

end Grammar

end SqlFormatter
