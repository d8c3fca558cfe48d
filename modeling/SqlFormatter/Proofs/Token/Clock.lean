import Mathlib.Tactic.SplitIfs
import SqlFormatter.Token.Scanner

/-!
# SqlFormatter.Proofs.Token.Clock

Scans against time, which may be over at any character of a lexeme. `Scanner.scanBy` is
`Scanner.scan` with that; a `Clock` says when time is over in each scan of a sequence. If it never
is, then nothing is different (`Scanner.scanBy_none`), and if it is over at once in a scan, then
that is as if it had been over from the start (`Lexeme.readBy_zero`).
-/

namespace SqlFormatter

/-! ### Lexemes that are read against time -/

namespace Lexeme

/-- The lexeme, if the time for reading it is over after `n` of its characters. -/
def cutOff (l : Lexeme) (n : Nat) : Lexeme :=
  if n ≤ l.text.length then ⟨l.text.take n, l.text.drop n ++ l.rest, .error .deadlineExceeded⟩
  else l

/-- The lexeme at the front of `c :: cs`, where `time` says after how many characters the time for
reading is over, if it is. Only what cannot be read when the time is over from the start is read
against time; the characters count from where that stops. -/
def readBy (time : Option Nat) (expired : Bool) (previous : Kind) (c : Char) (cs : List Char) :
    Lexeme :=
  match time, (read true previous c cs).result with
  | some n, .error .deadlineExceeded =>
    (read expired previous c cs).cutOff ((read true previous c cs).text.length + n)
  | _, _ => read expired previous c cs

variable {time : Option Nat} {expired : Bool} {previous : Kind} {c : Char} {cs : List Char}

/-- What holds of a lexeme, and of those cut off, holds of it whatever the time. -/
theorem readBy_of_cutOff {P : Lexeme → Prop} (h : P (read expired previous c cs))
    (hcut : ∀ n, P ⟨(read expired previous c cs).text.take n,
      (read expired previous c cs).text.drop n ++ (read expired previous c cs).rest,
      .error .deadlineExceeded⟩) : P (readBy time expired previous c cs) := by
  unfold readBy
  split
  · unfold cutOff
    split
    · exact hcut _
    · exact h
  · exact h

theorem readBy_append (time : Option Nat) (expired : Bool) (previous : Kind) (c : Char)
    (cs : List Char) : (readBy time expired previous c cs).text ++
      (readBy time expired previous c cs).rest = c :: cs := by
  have happend := read_append expired previous c cs
  refine readBy_of_cutOff (P := fun l => l.text ++ l.rest = c :: cs) happend fun n => ?_
  dsimp only
  rw [← List.append_assoc, List.take_append_drop, happend]

theorem readBy_rest_length_lt {kind : Kind}
    (h : (readBy time expired previous c cs).result = .ok kind) :
    (readBy time expired previous c cs).rest.length < (c :: cs).length :=
  readBy_of_cutOff (P := fun l => ∀ kind, l.result = .ok kind → l.rest.length < (c :: cs).length)
    (fun _ => rest_length_lt_of_ok) (fun _ => nofun) kind h

/-- A lexeme that is cut off behind a front of it leaves the rest. -/
theorem cutOff_length {l : Lexeme} (front : List Char) {behind : List Char}
    (h : l.text ++ l.rest = front ++ behind) (hle : front.length ≤ l.text.length) :
    l.cutOff front.length = ⟨front, behind, .error .deadlineExceeded⟩ := by
  rw [cutOff, if_pos hle]
  have htake := congrArg (List.take front.length) h
  have hdrop := congrArg (List.drop front.length) h
  rw [List.take_append_of_le_length hle, List.take_left] at htake
  rw [List.drop_append_of_le_length hle, List.drop_left] at hdrop
  rw [htake, hdrop]

/-- If time is over at once, then it is over from the start. -/
theorem readBy_zero : readBy (some 0) false previous c cs = read true previous c cs := by
  have hnumber (sign digits : List Char) :
      (number false sign digits).cutOff sign.length = number true sign digits := by
    refine cutOff_length sign (number_append false sign digits) ?_
    unfold number
    dsimp only
    rw [if_neg Bool.false_ne_true]
    split <;> simp
  unfold readBy read
  split_ifs
  · rfl
  · exact hnumber [] _
  · refine cutOff_length [singleQuote] (quoted_append false cs) ?_
    unfold quoted
    rw [if_neg Bool.false_ne_true]
    split <;> simp
  · rfl
  · cases cs with
    | nil => rfl
    | cons d ds =>
      rw [dash, dash]
      split_ifs
      · rfl
      · exact hnumber ['-'] _
      · rfl
  · cases cs with
    | nil => rfl
    | cons d ds =>
      rw [slash, slash]
      split_ifs
      · refine cutOff_length ['/', '*'] ?_ ?_
        · simp [blockComment, blockTail_append]
        · simp [blockComment]
      · rfl
  · cases cs with
    | nil => rfl
    | cons d ds =>
      unfold symbol
      dsimp only
      cases pairKind? c d <;> rfl

end Lexeme

/-! ### Scans -/

/-- When the time for reading is over, for each scan to come (see `Lexeme.readBy`). It is not over
in those behind the end of the list. -/
abbrev Clock := List (Option Nat)

namespace Scanner

/-- As `scan`, where `time` says when the time for reading the lexeme is over, if it is. -/
def scanBy (time : Option Nat) (s : Scanner) : Except LexError Token × Scanner :=
  let s := s.skipGap
  match s.rest with
  | [] => (.ok (.endOfInput s.pos), s)
  | c :: cs => s.settle c (Lexeme.readBy time s.expired s.previous c cs)

/-- If time does not run out, then nothing is different. -/
theorem scanBy_none (s : Scanner) : s.scanBy none = s.scan := rfl

variable {s s' : Scanner} {time : Option Nat} {t : Token}

/-- A scan that gives a token moves on, but at the end of the text. -/
theorem rest_length_lt_of_scanBy_eq_ok (h : s.scanBy time = (.ok t, s'))
    (ht : t.kind ≠ .endOfInput) : s'.rest.length < s.rest.length := by
  unfold scanBy at h
  dsimp only at h
  split at h
  · cases h
    exact absurd rfl ht
  · next c cs hcons =>
    refine rest_length_lt_of_settle h ?_
    rw [hcons]
    exact Lexeme.readBy_rest_length_lt (result_of_settle_eq_ok (congrArg Prod.fst h))

/-- What holds of a scanner that finds an error or the end of input in the time given, and of one in
front of a comment or of another token if it holds behind that, holds of every scanner. -/
@[elab_as_elim]
theorem clockInduction {motive : Clock → Scanner → Prop}
    (error : ∀ clock s s' e, s.scanBy (clock.headD none) = (.error e, s') → motive clock s)
    (endOfInput : ∀ clock s s' t, s.scanBy (clock.headD none) = (.ok t, s') →
      t.kind = .endOfInput → motive clock s)
    (comment : ∀ clock s s' t, s.scanBy (clock.headD none) = (.ok t, s') → t.kind = .comment →
      motive clock.tail s' → motive clock s)
    (token : ∀ clock s s' t, s.scanBy (clock.headD none) = (.ok t, s') → t.kind ≠ .endOfInput →
      t.kind ≠ .comment → motive clock.tail s' → motive clock s)
    (clock : Clock) (s : Scanner) : motive clock s := by
  induction hn : s.rest.length using Nat.strongRecOn generalizing clock s with
  | ind n ih =>
    rcases hscan : s.scanBy (clock.headD none) with ⟨e | t, s'⟩
    · exact error clock s s' e hscan
    by_cases hend : t.kind = .endOfInput
    · exact endOfInput clock s s' t hscan hend
    have hs' : motive clock.tail s' :=
      ih _ (hn ▸ rest_length_lt_of_scanBy_eq_ok hscan hend) _ s' rfl
    by_cases hcomment : t.kind = .comment
    · exact comment clock s s' t hscan hcomment hs'
    · exact token clock s s' t hscan hend hcomment hs'

end Scanner

end SqlFormatter
