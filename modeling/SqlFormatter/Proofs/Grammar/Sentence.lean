import SqlFormatter.Proofs.Grammar.Canonical
import SqlFormatter.Proofs.Grammar.Neighbours

/-!
# SqlFormatter.Proofs.Grammar.Sentence

The language of the grammar without a limit on nesting, in words.

* A `Sentence` is the words of a canonical statement, perhaps a semicolon, and the end of input.
* Words are `Viable` if they are the first words of a sentence.
* `OperandExpected`, `TableExpected`, `AfterTable` and `AfterSemicolon` are the places in a sentence
  where the start of a construct that is not supported is recognised.
-/

namespace SqlFormatter

/-- The words of a statement, perhaps a semicolon, and the end of input. -/
def Sentence (ws : List Word) : Prop :=
  ∃ s : Statement, s.Canonical ∧
    (ws = s.yield ++ [.fixed .endOfInput] ∨ ws = s.yield ++ [.fixed .semicolon, .fixed .endOfInput])

/-- The words are the first ones of a sentence. -/
def Viable (ws : List Word) : Prop := ∃ more, Sentence (ws ++ more)

theorem Viable.of_append {ws vs : List Word} (h : Viable (ws ++ vs)) : Viable ws := by
  obtain ⟨more, hmore⟩ := h
  rw [List.append_assoc] at hmore
  exact ⟨vs ++ more, hmore⟩

/-- The first words of a canonical statement are viable. -/
theorem viable_of_yield {s : Statement} {ws more : List Word} (h : s.Canonical)
    (hwords : s.yield = ws ++ more) : Viable ws :=
  ⟨more ++ [.fixed .endOfInput], s, h, Or.inl (by rw [hwords, List.append_assoc])⟩

/-! ### Places in a sentence -/

/-- The word of a number, which can stand wherever an operand can and nowhere else. -/
def Word.number : Word := ⟨.integer, "0"⟩

/-- An operand may be next. -/
def OperandExpected (ws : List Word) : Prop := Viable (ws ++ [.number])

/-- A table must be next: the words are those of the SELECT clause, FROM, and some tables with a
comma behind each. -/
def TableExpected (ws : List Word) : Prop :=
  ∃ (c : SelectClause) (tables : List Table), (∀ x ∈ c.columns.toList, x.expr.Canonical) ∧
    ws = c.leaves.map Leaf.word ++ .fixed (.keyword .FROM) ::
      (tables.flatMap fun x => x.leaves ++ [.comma]).map Leaf.word

/-- A table has just been there: the words are those of the SELECT clause and of a FROM clause. -/
def AfterTable (ws : List Word) : Prop :=
  ∃ (c : SelectClause) (f : FromClause), (∀ x ∈ c.columns.toList, x.expr.Canonical) ∧
    ws = c.leaves.map Leaf.word ++ f.leaves.map Leaf.word

/-- The semicolon has just been there: the words are those of a statement and a semicolon. -/
def AfterSemicolon (ws : List Word) : Prop :=
  ∃ s : Statement, s.Canonical ∧ ws = s.yield ++ [.fixed .semicolon]

theorem AfterSemicolon.viable {ws : List Word} (h : AfterSemicolon ws) : Viable ws := by
  obtain ⟨s, hs, rfl⟩ := h
  exact ⟨[.fixed .endOfInput], s, hs, Or.inr (by rw [List.append_assoc]; rfl)⟩

/-- A statement of two clauses. -/
def Statement.ofClauses (c : SelectClause) (f : FromClause) : Statement :=
  ⟨c, f, none, none, none, []⟩

theorem Statement.canonical_ofClauses {c : SelectClause} {f : FromClause}
    (h : ∀ x ∈ c.columns.toList, x.expr.Canonical) : (ofClauses c f).Canonical :=
  forall_exprs_iff.2 ⟨h, by simp [ofClauses], by simp [ofClauses], by simp [ofClauses]⟩

theorem Statement.yield_ofClauses (c : SelectClause) (f : FromClause) :
    (ofClauses c f).yield = c.leaves.map Leaf.word ++ f.leaves.map Leaf.word := by
  simp [yield, leaves, ofClauses]

end SqlFormatter
