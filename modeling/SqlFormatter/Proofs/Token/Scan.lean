import Mathlib.Data.List.TakeWhile
import SqlFormatter.Proofs.Token.Scans

/-!
# SqlFormatter.Proofs.Token.Scan

What one scan does. A scan that gives a token passes over a gap and then over a lexeme, or over a
gap to the end of the text (`Scanner.scan_eq_ok`); one that gives none stops in a lexeme behind a
gap (`Scanner.scan_eq_error`). What is proved of sequences of scans is derived from these two.
-/

namespace SqlFormatter

@[simp] theorem File.base_addLines (f : File) (offsets : List Nat) :
    (f.addLines offsets).base = f.base := by
  induction offsets generalizing f with
  | nil => rfl
  | cons o os ih => exact (ih _).trans (f.base_addLine o)

namespace Scanner

variable {s u : Scanner} {t : Token} {c : Char} {l : Lexeme}

theorem pos_advance (s : Scanner) (text rest : List Char) :
    (s.advance text rest).pos = s.pos + byteLength text := by
  simp [advance, pos, Nat.add_assoc]

/-! ### Lexemes that were found -/

/-- The lexeme `l` at the front of the text of `s` is the token `t`, and `u` stands behind it. -/
structure Takes (s : Scanner) (l : Lexeme) (t : Token) (u : Scanner) : Prop where
  result_eq : l.result = .ok t.kind
  pos_eq : t.pos = s.pos
  text_eq : t.text = String.ofList l.text
  rest_after : u.rest = l.rest
  pos_after : u.pos = s.pos + byteLength l.text
  previous_after : u.previous = s.previous.after t.kind
  expired_after : u.expired = s.expired

theorem settle_eq_ok (h : s.settle c l = (.ok t, u)) : s.Takes l t u := by
  have hpos := s.pos_advance l.text l.rest
  have hresult := result_of_settle_eq_ok (congrArg Prod.fst h)
  have htext := text_of_settle_eq_ok (congrArg Prod.fst h)
  unfold settle at h
  -- A comment leaves the kind before it in place, and any other token puts its own there.
  split at h
  · cases h
  · cases h
    exact ⟨hresult, rfl, htext, rfl, hpos, rfl, rfl⟩
  · cases h
    exact ⟨hresult, rfl, htext, rfl, hpos, rfl, rfl⟩
  · next kind hcomment _ hkind =>
    cases h
    exact ⟨hresult, rfl, htext, rfl, hpos, (if_neg hcomment).symm, rfl⟩

theorem settle_eq_error {e : LexError} (h : s.settle c l = (.error e, u)) :
    l.result = .error e.fault ∧ e.pos = s.pos := by
  unfold settle at h
  split at h
  · next fault hfault =>
    cases h
    exact ⟨hfault, rfl⟩
  all_goals cases h

/-! ### Gaps -/

/-- Behind the gap at the front of a text nothing is left, or a character that is no gap. -/
theorem skipGap_cases (s : Scanner) :
    ((∀ d ∈ s.rest, isGap d) ∧ s.skipGap.rest = [] ∧ s.skipGap.pos = s.pos + byteLength s.rest) ∨
      ∃ gap c cs, s.rest = gap ++ c :: cs ∧ (∀ d ∈ gap, isGap d) ∧ isGap c = false ∧
        s.skipGap.rest = c :: cs ∧ s.skipGap.pos = s.pos + byteLength gap := by
  have hpos : s.skipGap.pos = s.pos + byteLength (s.rest.takeWhile isGap) := s.pos_advance _ _
  cases hdrop : s.rest.dropWhile isGap with
  | nil =>
    have hgap := List.dropWhile_eq_nil_iff.1 hdrop
    rw [List.takeWhile_eq_self_iff.2 hgap] at hpos
    exact Or.inl ⟨hgap, hdrop, hpos⟩
  | cons c cs =>
    have hc := List.head?_dropWhile_not isGap s.rest
    rw [hdrop] at hc
    refine Or.inr ⟨s.rest.takeWhile isGap, c, cs, ?_,
      fun d hd => List.all_eq_true.1 List.all_takeWhile d hd, hc, hdrop, hpos⟩
    rw [← hdrop, List.takeWhile_append_dropWhile]

/-- From `s` on there is a gap, and behind it a lexeme with `c` in front of `cs`. -/
structure Meets (s : Scanner) (gap : List Char) (c : Char) (cs : List Char) : Prop where
  rest_eq : s.rest = gap ++ c :: cs
  isGap_of_mem : ∀ d ∈ gap, isGap d
  isGap_first : isGap c = false
  pos_skipGap : s.skipGap.pos = s.pos + byteLength gap
  scan_eq : s.scan = s.skipGap.settle c (Lexeme.read s.expired s.previous c cs)

/-- From `s` on there is a gap and nothing else. -/
structure Ends (s : Scanner) : Prop where
  isGap_of_mem : ∀ d ∈ s.rest, isGap d
  scan_eq : s.scan = (.ok (.endOfInput (s.pos + byteLength s.rest)), s.skipGap)

theorem meets_of_rest {gap cs : List Char} (hrest : s.rest = gap ++ c :: cs)
    (hgap : ∀ d ∈ gap, isGap d) (hc : isGap c = false) : s.Meets gap c cs := by
  have hnot : ¬isGap c := by simp [hc]
  have htake : s.rest.takeWhile isGap = gap := by
    rw [hrest, List.takeWhile_append_of_pos hgap, List.takeWhile_cons_of_neg hnot, List.append_nil]
  have hdrop : s.skipGap.rest = c :: cs := by
    show s.rest.dropWhile isGap = _
    rw [hrest, List.dropWhile_append_of_pos hgap, List.dropWhile_cons_of_neg hnot]
  refine ⟨hrest, hgap, hc, ?_, ?_⟩
  · rw [skipGap, pos_advance, htake]
  · unfold scan
    simp only [hdrop]
    rfl

theorem ends_or_meets (s : Scanner) : s.Ends ∨ ∃ gap c cs, s.Meets gap c cs := by
  rcases s.skipGap_cases with ⟨hgap, hrest, hpos⟩ | ⟨gap, c, cs, hsplit, hgap, hc, -, -⟩
  · refine Or.inl ⟨hgap, ?_⟩
    unfold scan
    simp only [hrest, hpos]
  · exact Or.inr ⟨gap, c, cs, meets_of_rest hsplit hgap hc⟩

/-- A scan that gives a token is at the end of the text, or takes the lexeme that it meets. -/
theorem scan_eq_ok (h : s.scan = (.ok t, u)) :
    (s.Ends ∧ t = .endOfInput (s.pos + byteLength s.rest) ∧ u.rest = []) ∨
      ∃ gap c cs, s.Meets gap c cs ∧
        s.skipGap.Takes (Lexeme.read s.expired s.previous c cs) t u := by
  rcases s.ends_or_meets with hends | ⟨gap, c, cs, hmeets⟩
  · rw [hends.scan_eq] at h
    cases h
    exact Or.inl ⟨hends, rfl, List.dropWhile_eq_nil_iff.2 hends.isGap_of_mem⟩
  · exact Or.inr ⟨gap, c, cs, hmeets, settle_eq_ok (hmeets.scan_eq ▸ h)⟩

/-- A scan that gives no token stops in the lexeme that it meets, and its error names the start of
that lexeme. -/
theorem scan_eq_error {e : LexError} (h : s.scan = (.error e, u)) :
    ∃ gap c cs, s.Meets gap c cs ∧
      (Lexeme.read s.expired s.previous c cs).result = .error e.fault ∧
      e.pos = s.pos + byteLength gap := by
  rcases s.ends_or_meets with hends | ⟨gap, c, cs, hmeets⟩
  · rw [hends.scan_eq] at h
    cases h
  · obtain ⟨hresult, hpos⟩ := settle_eq_error (hmeets.scan_eq ▸ h)
    exact ⟨gap, c, cs, hmeets, hresult, hpos.trans hmeets.pos_skipGap⟩

end Scanner

end SqlFormatter
