import SqlFormatter.Proofs.Token.Clock

/-!
# SqlFormatter.Proofs.Token.Tokenize

Scan after scan through a text (`Scanner.scanInduction`), and one step of `Scanner.tokenize` for
each outcome of the scan.
-/

namespace SqlFormatter.Scanner

variable {s u : Scanner} {t : Token}

/-- What holds of a scanner that finds an error or the end of input, and of one in front of a
comment or of another token if it holds behind that, holds of every scanner. -/
@[elab_as_elim]
theorem scanInduction {motive : Scanner → Prop}
    (error : ∀ s u e, s.scan = (.error e, u) → motive s)
    (endOfInput : ∀ s u t, s.scan = (.ok t, u) → t.kind = .endOfInput → motive s)
    (comment : ∀ s u t, s.scan = (.ok t, u) → t.kind = .comment → motive u → motive s)
    (token : ∀ s u t, s.scan = (.ok t, u) → t.kind ≠ .endOfInput → t.kind ≠ .comment →
      motive u → motive s) (s : Scanner) : motive s := by
  -- Time that never runs out is an empty clock, and stays one.
  suffices h : ∀ (clock : Clock) s, clock = [] → motive s from h [] s rfl
  intro clock s hclock
  induction clock, s using clockInduction with
  | error clock s u e hscan =>
    subst hclock
    exact error s u e hscan
  | endOfInput clock s u t hscan hend =>
    subst hclock
    exact endOfInput s u t hscan hend
  | comment clock s u t hscan hcomment ih =>
    subst hclock
    exact comment s u t hscan hcomment (ih rfl)
  | token clock s u t hscan hend hcomment ih =>
    subst hclock
    exact token s u t hscan hend hcomment (ih rfl)

theorem tokenize_of_error {e : LexError} (h : s.scan = (.error e, u)) :
    s.tokenize = (.error e, u) := by
  rw [tokenize]
  split
  · next h' => cases h.symm.trans h'; rfl
  · next h' => cases h.symm.trans h'

theorem tokenize_of_endOfInput (h : s.scan = (.ok t, u)) (ht : t.kind = .endOfInput) :
    s.tokenize = (.ok [t], u) := by
  rw [tokenize]
  split
  · next h' => cases h.symm.trans h'
  · next h' => cases h.symm.trans h'; rw [dif_pos ht]

theorem tokenize_of_token (h : s.scan = (.ok t, u)) (ht : t.kind ≠ .endOfInput) :
    s.tokenize = (u.tokenize.1.map (t :: ·), u.tokenize.2) := by
  rw [tokenize]
  split
  · next h' => cases h.symm.trans h'
  · next h' => cases h.symm.trans h'; rw [dif_neg ht]

/-- Without an error the tokens behind a token are those of the scanner behind it. -/
theorem exists_others_of_token {all : List Token} (h : s.scan = (.ok t, u))
    (ht : t.kind ≠ .endOfInput) (hall : s.tokenize.1 = .ok all) :
    ∃ others, u.tokenize.1 = .ok others ∧ all = t :: others := by
  rw [tokenize_of_token h ht] at hall
  cases hothers : u.tokenize.1 with
  | error e =>
    rw [hothers] at hall
    cases hall
  | ok others =>
    rw [hothers] at hall
    cases hall
    exact ⟨others, rfl, rfl⟩

end SqlFormatter.Scanner
