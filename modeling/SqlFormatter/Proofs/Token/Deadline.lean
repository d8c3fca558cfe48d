import SqlFormatter.Proofs.Grammar.Progress
import SqlFormatter.Proofs.Token.Onward

/-!
# SqlFormatter.Proofs.Token.Deadline

A scanner whose time is over, next to the same scanner with time. The time is looked at in numbers,
in texts and in block comments (`Kind.timed`): a scan of one of these fails, at its start, and any
other scan gives what it gives with time. This is said of lexemes first (`Lexeme.late_read`) and
then of scans (`Scanner.scan_late_of_timed`, `Scanner.scan_late_of_untimed`).
-/

namespace SqlFormatter

/-- Whether the time is looked at in a token of the kind with the text `text`. -/
def Kind.timed (text : List Char) : Kind → Bool
  | integer | real | string => true
  | comment => text.take 2 == ['/', '*']
  | _ => false

/-! ### Lexemes -/

namespace Lexeme

/-- Whether the time is looked at in the lexeme. One that is given up is a number, a text or a block
comment. -/
def timed (l : Lexeme) : Bool :=
  match l.result with
  | .error _ => true
  | .ok kind => kind.timed l.text

/-- Where `l` is read with time, `l'` is read without. -/
def Late (l l' : Lexeme) : Prop :=
  if l.timed then l'.result = .error .deadlineExceeded else l' = l

variable {l l' : Lexeme}

theorem Late.of_timed (h : l.timed) (hl' : l'.result = .error .deadlineExceeded) : l.Late l' :=
  (if_pos h).mpr hl'

theorem Late.of_untimed (h : l.timed = false) : l.Late l :=
  (if_neg (by simp [h])).mpr rfl

theorem late_word (cs : List Char) : (word cs).Late (word cs) := by
  refine .of_untimed ?_
  simp only [timed, word, wordKind]
  cases Keyword.ofText? (cs.takeWhile isWordChar) <;> rfl

theorem late_number (sign digits : List Char) :
    (number false sign digits).Late (number true sign digits) := by
  refine .of_timed ?_ rfl
  unfold timed number
  simp only [Bool.false_eq_true, if_false]
  cases (readNumber .whole digits).result with
  | error fault => rfl
  | ok part => cases part <;> rfl

theorem late_quoted (cs : List Char) : (quoted false cs).Late (quoted true cs) := by
  refine .of_timed ?_ rfl
  unfold timed quoted
  simp only [Bool.false_eq_true, if_false]
  cases cs.dropWhile (· != singleQuote) <;> rfl

theorem late_lineComment {marker : List Char} (hmarker : marker = ['#'] ∨ marker = ['-', '-'])
    (cs : List Char) : (lineComment marker cs).Late (lineComment marker cs) := by
  refine .of_untimed ?_
  rcases hmarker with rfl | rfl <;> simp [timed, lineComment, Kind.timed]

theorem late_dash (previous : Kind) (cs : List Char) :
    (dash false previous cs).Late (dash true previous cs) := by
  cases cs with
  | nil => exact .of_untimed rfl
  | cons c cs =>
    simp only [dash]
    split_ifs with hcomment hnumber
    · exact late_lineComment (Or.inr rfl) cs
    · exact late_number ['-'] (c :: cs)
    · exact .of_untimed rfl

theorem late_slash (cs : List Char) : (slash false cs).Late (slash true cs) := by
  cases cs with
  | nil => exact .of_untimed rfl
  | cons c cs =>
    simp only [slash]
    split_ifs with hstar
    · refine .of_timed ?_ rfl
      show timed ((blockTail cs).after ['/', '*'])
      unfold timed
      cases hresult : (blockTail cs).result with
      | error fault => simp [hresult]
      | ok kind => simp [hresult, kind_of_blockTail hresult, Kind.timed]
    · exact .of_untimed rfl

theorem late_symbol (c : Char) (cs : List Char) : (symbol c cs).Late (symbol c cs) := by
  have hsingle : ∀ cs, (single c cs).timed = false := by
    intro cs
    simp only [timed, single, singleKind?]
    split <;> rfl
  refine .of_untimed ?_
  cases cs with
  | nil => exact hsingle []
  | cons d cs =>
    simp only [symbol, pairKind?]
    split_ifs
    all_goals first | rfl | exact hsingle _

/-- A lexeme in which the time is looked at fails without time, and any other one is read as it is
with time. -/
theorem late_read (previous : Kind) (c : Char) (cs : List Char) :
    (read false previous c cs).Late (read true previous c cs) := by
  unfold read
  split_ifs
  · exact late_word _
  · exact late_number [] _
  · exact late_quoted cs
  · exact late_lineComment (Or.inl rfl) cs
  · exact late_dash previous cs
  · exact late_slash cs
  · exact late_symbol c cs

end Lexeme

/-! ### Scans -/

namespace Scanner

variable {s : Scanner}

/-- Whether the time is looked at in what a scan finds. A scan fails in a number, a text or a block
comment only. -/
def timed : Except LexError Token → Bool
  | .error _ => true
  | .ok t => t.kind.timed t.text.toList

/-- The scanner when the time is over. -/
def late (s : Scanner) : Scanner := { s with expired := true }

/-- The error of a scan whose time is over, where with time there is `outcome`. -/
def lateError (outcome : Except LexError Token) : LexError := ⟨start outcome, .deadlineExceeded⟩

theorem timed_settle (s : Scanner) (c : Char) (l : Lexeme) : timed (s.settle c l).1 = l.timed := by
  unfold settle
  split
  · next fault hfault => simp [timed, Lexeme.timed, hfault]
  · next hkind => simp [timed, Lexeme.timed, hkind]
  · next hkind => simp [timed, Lexeme.timed, hkind]
  · next kind _ _ hkind => simp [timed, Lexeme.timed, hkind]

theorem settle_late (s : Scanner) (c : Char) (l : Lexeme) :
    s.late.settle c l = ((s.settle c l).1, (s.settle c l).2.late) := by
  unfold settle
  dsimp only
  split <;> rfl

/-- With time and without, a scan settles the lexeme behind the gap, if there is one. -/
theorem scan_late_cases (h : s.expired = false) :
    (s.scan = (.ok (.endOfInput s.skipGap.pos), s.skipGap) ∧
        s.late.scan = (.ok (.endOfInput s.skipGap.pos), s.skipGap.late)) ∨
      ∃ c l l', l.Late l' ∧ s.scan = s.skipGap.settle c l ∧
        s.late.scan = s.skipGap.late.settle c l' := by
  have hrest : s.late.skipGap.rest = s.skipGap.rest := rfl
  unfold scan
  simp only [hrest]
  cases s.skipGap.rest with
  | nil => exact Or.inl ⟨rfl, rfl⟩
  | cons c cs =>
    have hexpired : s.skipGap.expired = false := h
    refine Or.inr ⟨c, _, _, Lexeme.late_read s.skipGap.previous c cs, ?_, rfl⟩
    simp only [hexpired]

/-- A scan in which the time is not looked at gives the same without time. -/
theorem scan_late_of_untimed (h : s.expired = false) (hscan : timed s.scan.1 = false) :
    s.late.scan = (s.scan.1, s.scan.2.late) := by
  rcases scan_late_cases h with ⟨hsame, hlate⟩ | ⟨c, l, l', hl, hsame, hlate⟩
  · rw [hlate, hsame]
  · rw [hsame, timed_settle] at hscan
    obtain rfl : l' = l := (if_neg (by simp [hscan])).mp hl
    rw [hlate, hsame, settle_late]

/-- A scan in which the time is looked at fails without time, and this is reported. -/
theorem scan_late_of_timed (h : s.expired = false) (hscan : timed s.scan.1) :
    ∃ u, s.late.scan = (.error (lateError s.scan.1), u) ∧
      u.reports = s.reports ++ [.fatal (lateError s.scan.1)] := by
  rcases scan_late_cases h with ⟨hsame, -⟩ | ⟨c, l, l', hl, hsame, hlate⟩
  · rw [hsame] at hscan
    cases hscan
  · rw [hsame, timed_settle] at hscan
    have hresult : l'.result = .error .deadlineExceeded := (if_pos hscan).mp hl
    rw [hlate, hsame, lateError, start_settle]
    unfold settle
    rw [hresult]
    exact ⟨_, rfl, rfl⟩

theorem ofText_late (file : File) (text : String) :
    ofText file text true = (ofText file text).map late := by
  unfold ofText
  dsimp only
  split
  · split
    · rfl
    · split <;> rfl
  · rfl

end Scanner

end SqlFormatter
