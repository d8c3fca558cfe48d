import SqlFormatter.Violation

/-!
# SqlFormatter.Source.File

A source file and the positions that it owns. All files of a registry share one position space: a
file of `size` bytes at `base` owns the positions from `base` to `base + size`, the last one
standing for its end. Positions are natural numbers, and position 0 belongs to no file.

* `File.pos` and `File.offset` convert between byte offsets and positions.
* `File.addLine` keeps the table of line starts strictly increasing and below the size.
* `File.locate` finds the line and the column of a position.
-/

namespace SqlFormatter

/-- Nowhere: the position that no file owns. -/
def nowhere : Nat := 0

/-- Whether a position can belong to a file. -/
def isSomewhere (p : Nat) : Bool := p != nowhere

/-- The greatest position and size: those are words of 64 bits. -/
def maxPos : Nat := UInt64.size - 1

/-- A place in a source text for a reader. -/
structure Location where
  /-- The name of the file. -/
  file : String
  /-- The line, counted from 1. -/
  line : Nat
  /-- The byte of the line, counted from 1. -/
  column : Nat
  deriving DecidableEq, Repr

/-- The text of the location; the name of the file is left out if it is empty. -/
def Location.text (l : Location) : String :=
  if l.file = "" then s!"{l.line}:{l.column}" else s!"{l.file}:{l.line}:{l.column}"

/-- A registered source file. -/
structure File where
  /-- The number of files that were registered before it. -/
  id : Nat
  /-- The name that it was registered with. -/
  name : String
  /-- The position of its first byte. -/
  base : Nat
  /-- The number of its bytes. -/
  size : Nat
  /-- The offsets at which the known lines after the first start, latest first. -/
  laterLines : List Nat := []
  deriving DecidableEq, Repr

namespace File

/-- The position of the end of the file. -/
def last (f : File) : Nat := f.base + f.size

/-- The file owns `p`. -/
def Owns (f : File) (p : Nat) : Prop := f.base ≤ p ∧ p ≤ f.last

instance (f : File) (p : Nat) : Decidable (f.Owns p) :=
  inferInstanceAs (Decidable (f.base ≤ p ∧ p ≤ f.last))

/-- The position of the byte at `offset`. -/
def pos (f : File) (offset : Nat) : Except Violation Nat :=
  if offset ≤ f.size then .ok (f.base + offset) else .error (.offsetOutside offset f.size)

/-- The offset of the byte at position `p`. -/
def offset (f : File) (p : Nat) : Except Violation Nat :=
  if f.Owns p then .ok (p - f.base)
  else .error (.positionOutside p f.name f.base f.last)

/-- The offsets at which the known lines start, in order. -/
def lines (f : File) : List Nat := 0 :: f.laterLines.reverse

/-- The start of the last known line. -/
def lastLine (f : File) : Nat := f.laterLines.headD 0

/-- Takes note that a line starts at `offset`. An offset that is not beyond the last known line
start, or not inside the file, changes nothing. -/
def addLine (f : File) (offset : Nat) : File :=
  if f.lastLine < offset ∧ offset < f.size then
    { f with laterLines := offset :: f.laterLines }
  else f

/-- Takes note of the line starts one after the other. -/
def addLines (f : File) (offsets : List Nat) : File := offsets.foldl addLine f

/-- The line and column of the byte at `offset`, by the lines known so far. -/
def locateOffset (f : File) (offset : Nat) : Location where
  file := f.name
  line := f.laterLines.countP (· ≤ offset) + 1
  column := offset - (f.laterLines.find? (· ≤ offset)).getD 0 + 1

/-- The line and column of position `p`, by the lines known so far. -/
def locate (f : File) (p : Nat) : Except Violation Location :=
  (f.offset p).map f.locateOffset

/-! ### Offsets and positions -/

theorem owns_of_pos_eq_ok {f : File} {o : Nat} {p : Nat} (h : f.pos o = .ok p) : f.Owns p := by
  unfold pos at h
  split at h
  · cases h
    exact ⟨Nat.le_add_right .., Nat.add_le_add_left ‹_› _⟩
  · cases h

theorem offset_of_pos_eq_ok {f : File} {o : Nat} {p : Nat} (h : f.pos o = .ok p) :
    f.offset p = .ok o := by
  rw [offset, if_pos (owns_of_pos_eq_ok h)]
  unfold pos at h
  split at h
  · cases h
    rw [Nat.add_sub_cancel_left]
  · cases h

theorem pos_of_offset_eq_ok {f : File} {o : Nat} {p : Nat} (h : f.offset p = .ok o) :
    f.pos o = .ok p := by
  unfold offset at h
  split at h
  · next howns =>
    cases h
    obtain ⟨hbase, hlast⟩ := howns
    unfold last at hlast
    rw [pos, if_pos (by omega), Nat.add_sub_cancel' hbase]
  · cases h

/-! ### Line starts do not change where a file is -/

@[simp] theorem id_addLine (f : File) (o : Nat) : (f.addLine o).id = f.id := by
  unfold addLine; split <;> rfl

@[simp] theorem name_addLine (f : File) (o : Nat) : (f.addLine o).name = f.name := by
  unfold addLine; split <;> rfl

@[simp] theorem base_addLine (f : File) (o : Nat) : (f.addLine o).base = f.base := by
  unfold addLine; split <;> rfl

@[simp] theorem size_addLine (f : File) (o : Nat) : (f.addLine o).size = f.size := by
  unfold addLine; split <;> rfl

end File

end SqlFormatter
