import SqlFormatter.Proofs.Source.Search

/-!
# SqlFormatter.Proofs.Checked.Source

What can stop a program that works on a source (`Panic`), and the operations that check it: to take
a slice of the text, to look up a position, to use the end of a range as a position.

* A slice must start and stop between characters. `splitAtByte?` says where that is.
* `walk` moves over the text by character. It looks at each character in a slice of its own, and so
  knows of no more than the offset at which it stands.
-/

namespace SqlFormatter

/-- What stops a program. -/
inductive Panic where
  /-- A rule for the callers of an operation is broken. -/
  | violated (violation : Violation)
  /-- There is no slice of the text between these offsets. -/
  | noSlice (start stop : Nat)
  /-- There is no line for the offset. -/
  | noLine (offset : Nat)
  /-- The sum of a position and a length is no position. -/
  | overflow (pos length : Nat)
  /-- A level of nesting is left that was not entered. -/
  | underflow
  /-- A loop or a recursion goes on beyond its bound. -/
  | endless
  deriving DecidableEq, Repr

namespace Checked

theorem ok_bind {ε α β : Type} (a : α) (f : α → Except ε β) : Except.ok a >>= f = f a := rfl

/-- What comes of an operation with a rule for its callers, which is an assertion. -/
def assert {α : Type} (outcome : Except Violation α) : Except Panic α := outcome.mapError .violated

/-! ### Slices -/

/-- The text in front of byte `n` and the text from there on, if a character starts or the text ends
there. -/
def splitAtByte? : List Char → Nat → Option (List Char × List Char)
  | cs, 0 => some ([], cs)
  | [], _ + 1 => none
  | c :: cs, n + 1 =>
    if c.utf8Size ≤ n + 1 then
      (splitAtByte? cs (n + 1 - c.utf8Size)).map fun split => (c :: split.1, split.2)
    else none

theorem splitAtByte?_append (front behind : List Char) :
    splitAtByte? (front ++ behind) (byteLength front) = some (front, behind) := by
  induction front with
  | nil => cases behind <;> rfl
  | cons c cs ih =>
    have hsize := c.utf8Size_pos
    obtain ⟨n, hn⟩ : ∃ n, byteLength (c :: cs) = n + 1 :=
      ⟨byteLength (c :: cs) - 1, by rw [byteLength_cons]; omega⟩
    have hrest : n + 1 - c.utf8Size = byteLength cs := by
      rw [← hn, byteLength_cons, Nat.add_sub_cancel_left]
    rw [hn, List.cons_append, splitAtByte?, if_pos (by rw [← hn, byteLength_cons]; omega), hrest,
      ih, Option.map_some]

/-- There is a split where a character starts, and nowhere else. -/
theorem splitAtByte?_eq_some_iff {cs front behind : List Char} {n : Nat} :
    splitAtByte? cs n = some (front, behind) ↔ cs = front ++ behind ∧ byteLength front = n := by
  constructor
  · intro h
    fun_induction splitAtByte? cs n generalizing front with
    | case1 cs =>
      cases h
      exact ⟨rfl, rfl⟩
    | case2 => cases h
    | case3 c cs n hle ih =>
      obtain ⟨⟨front', behind'⟩, hsplit, heq⟩ := Option.map_eq_some_iff.1 h
      cases heq
      obtain ⟨rfl, hlength⟩ := ih hsplit
      refine ⟨rfl, ?_⟩
      rw [byteLength_cons, hlength]
      omega
    | case4 => cases h
  · rintro ⟨rfl, rfl⟩
    exact splitAtByte?_append front behind

/-- The text from byte `start` to just before byte `stop`. -/
def slice (source : List Char) (start stop : Nat) : Except Panic (List Char) :=
  match splitAtByte? source start with
  | none => .error (.noSlice start stop)
  | some (_, rest) =>
    if start ≤ stop then
      match splitAtByte? rest (stop - start) with
      | none => .error (.noSlice start stop)
      | some (text, _) => .ok text
    else .error (.noSlice start stop)

/-- The text from byte `start` on. -/
def sliceFrom (source : List Char) (start : Nat) : Except Panic (List Char) :=
  slice source start (byteLength source)

section Slice

variable {source before text after : List Char} {start stop : Nat}

/-- There is a slice between the ends of characters that stand in order, and nowhere else. -/
theorem slice_eq_ok_iff : slice source start stop = .ok text ↔
    ∃ before after, source = before ++ text ++ after ∧ byteLength before = start ∧
      byteLength (before ++ text) = stop := by
  constructor
  · intro h
    unfold slice at h
    split at h
    · cases h
    next before rest hstart =>
    split at h
    · next hle =>
      split at h
      · cases h
      · next after hstop =>
        cases h
        obtain ⟨hsource, hbefore⟩ := splitAtByte?_eq_some_iff.1 hstart
        obtain ⟨rfl, htext⟩ := splitAtByte?_eq_some_iff.1 hstop
        refine ⟨before, after, by rw [hsource, List.append_assoc], hbefore, ?_⟩
        rw [byteLength_append]
        omega
    · cases h
  · rintro ⟨before, after, hsource, rfl, rfl⟩
    have hstart : splitAtByte? source (byteLength before) = some (before, text ++ after) :=
      splitAtByte?_eq_some_iff.2 ⟨by rw [hsource, List.append_assoc], rfl⟩
    have hstop : splitAtByte? (text ++ after) (byteLength (before ++ text) - byteLength before) =
        some (text, after) :=
      splitAtByte?_eq_some_iff.2 ⟨rfl, by rw [byteLength_append, Nat.add_sub_cancel_left]⟩
    rw [slice, hstart]
    dsimp only
    rw [if_pos (by rw [byteLength_append]; exact Nat.le_add_right ..), hstop]

/-- The first byte of a letter of two is no slice. -/
example : slice ['é', 'a'] 0 1 = .error (.noSlice 0 1) := rfl

theorem slice_eq (h : source = before ++ text ++ after) :
    slice source (byteLength before) (byteLength (before ++ text)) = .ok text :=
  slice_eq_ok_iff.2 ⟨before, after, h, rfl, rfl⟩

theorem sliceFrom_eq (h : source = before ++ text) :
    sliceFrom source (byteLength before) = .ok text :=
  slice_eq_ok_iff.2 ⟨before, [], by rw [h, List.append_nil], rfl, by rw [h]⟩

end Slice

/-- The offset behind the next `n` characters, or at the end of the text if there are fewer. -/
def walk (source : List Char) : Nat → Nat → Except Panic Nat
  | offset, 0 => .ok offset
  | offset, n + 1 => do
    match ← sliceFrom source offset with
    | [] => walk source offset n
    | c :: _ => walk source (offset + c.utf8Size) n

theorem walk_eq {source before rest : List Char} (h : source = before ++ rest) (n : Nat) :
    walk source (byteLength before) n = .ok (byteLength (before ++ rest.take n)) := by
  induction n generalizing before rest with
  | zero => rw [walk, List.take_zero, List.append_nil]
  | succ n ih =>
    rw [walk, sliceFrom_eq h]
    change (match rest with
      | [] => walk source (byteLength before) n
      | c :: _ => walk source (byteLength before + c.utf8Size) n) = _
    cases rest with
    | nil =>
      have hrest := ih h
      rwa [List.take_nil] at hrest ⊢
    | cons c cs =>
      have hstep : byteLength (before ++ [c]) = byteLength before + c.utf8Size := by
        rw [byteLength_append, byteLength_cons, byteLength_nil, Nat.add_zero]
      have hrest : walk source (byteLength (before ++ [c])) n =
          .ok (byteLength (before ++ [c] ++ cs.take n)) := ih (by simpa using h)
      rw [hstep, List.append_assoc] at hrest
      exact hrest

/-! ### Positions -/

/-- The position of the byte at `offset`, which is the sum of the base and the offset. -/
def pos (f : File) (offset : Nat) : Except Panic Nat := do
  let p ← assert (f.pos offset)
  if p ≤ maxPos then return p else .error (.overflow f.base offset)

theorem pos_eq {f : File} {offset : Nat} (hoffset : offset ≤ f.size) (hlast : f.last ≤ maxPos) :
    pos f offset = .ok (f.base + offset) := by
  have hle : f.base + offset ≤ maxPos := Nat.le_trans (Nat.add_le_add_left hoffset _) hlast
  rw [pos, File.pos, if_pos hoffset]
  exact if_pos hle

/-- The line and column of position `p`, by the lines that the file knows. -/
def locate (f : File) (p : Nat) : Except Panic Location := do
  let offset ← assert (f.offset p)
  match f.lookUp? offset with
  | none => .error (.noLine offset)
  | some location => .ok location

/-- A position of a file that has its lines in order is found. -/
theorem locate_eq {f : File} {p : Nat} (hlines : f.lines.Pairwise (· < ·)) (hp : f.Owns p) :
    locate f p = .ok (f.locateOffset (p - f.base)) := by
  rw [locate, File.offset, if_pos hp]
  change (match f.lookUp? (p - f.base) with
    | none => Except.error (Panic.noLine (p - f.base))
    | some location => Except.ok location) = _
  rw [File.lookUp?_eq hlines]

/-- The end of a range, which is the sum of a position and a length. -/
def stop (r : Range) : Except Panic Nat :=
  if r.stop ≤ maxPos then .ok r.stop else .error (.overflow r.pos (r.stop - r.pos))

end Checked

end SqlFormatter
