/-!
# SqlFormatter.Text.Buffer

A buffer for a bounded number of bytes. A write that does not fit fills the buffer and fails.
-/

namespace SqlFormatter

/-- Bytes, of which there may be at most `capacity`. -/
structure Buffer where
  /-- The greatest number of bytes. -/
  capacity : Nat
  /-- The bytes written. -/
  bytes : List UInt8 := []
  deriving DecidableEq, Repr

/-- Why a write to a buffer fails. -/
inductive BufferFault where
  /-- There was no room for all bytes. -/
  | full
  deriving DecidableEq, Repr

/-- The text of the fault. -/
def BufferFault.message : BufferFault → String
  | .full => "failed to write whole buffer"

namespace Buffer

/-- The number of bytes that there is room for. -/
def room (b : Buffer) : Nat := b.capacity - b.bytes.length

/-- Writes the bytes, or as many of them as there is room for. -/
def write (b : Buffer) (bytes : List UInt8) : Except BufferFault Unit × Buffer :=
  (if bytes.length ≤ b.room then .ok () else .error .full,
    { b with bytes := b.bytes ++ bytes.take b.room })

theorem length_bytes_write (b : Buffer) (bytes : List UInt8) :
    (b.write bytes).2.bytes.length = b.bytes.length + min b.room bytes.length := by
  simp [write]

theorem bytes_write_of_ok {b : Buffer} {bytes : List UInt8} (h : (b.write bytes).1 = .ok ()) :
    (b.write bytes).2.bytes = b.bytes ++ bytes := by
  unfold write at h ⊢
  dsimp only at h ⊢
  split at h
  · next hle => rw [List.take_of_length_le hle]
  · cases h

end Buffer

end SqlFormatter
