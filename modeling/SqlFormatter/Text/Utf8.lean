/-!
# SqlFormatter.Text.Utf8

The byte length of a text in UTF-8, and decoding with a diagnosis: where the well-formed part of
the bytes ends, and how many bytes after it cannot start a character.
-/

namespace SqlFormatter

/-- The number of bytes that the characters take in UTF-8. -/
def byteLength : List Char → Nat
  | [] => 0
  | c :: cs => c.utf8Size + byteLength cs

@[simp] theorem byteLength_nil : byteLength [] = 0 := rfl

@[simp] theorem byteLength_cons (c : Char) (cs : List Char) :
    byteLength (c :: cs) = c.utf8Size + byteLength cs := rfl

@[simp] theorem byteLength_append (xs ys : List Char) :
    byteLength (xs ++ ys) = byteLength xs + byteLength ys := by
  induction xs with
  | nil => simp
  | cons c cs ih => simp [ih, Nat.add_assoc]

/-- The bytes of the text in UTF-8. -/
def encodeUtf8 (text : String) : List UInt8 :=
  text.toUTF8.toList

/-- Why bytes are not UTF-8. The index is the length of the part that is. -/
inductive Utf8Fault where
  /-- The `length` bytes from `index` on start no character. -/
  | invalid (length index : Nat)
  /-- The bytes end inside the character that starts at `index`. -/
  | incomplete (index : Nat)
  deriving DecidableEq, Repr

namespace Utf8Fault

/-- The text of the fault. -/
def message : Utf8Fault → String
  | invalid length index => s!"invalid utf-8 sequence of {length} bytes from index {index}"
  | incomplete index => s!"incomplete utf-8 byte sequence from index {index}"

end Utf8Fault

/-- A character of which some bytes have been read. -/
structure PartialChar where
  /-- The bytes read. -/
  seen : Nat
  /-- The continuation bytes that are still to come. -/
  owed : Nat
  /-- The least next byte. -/
  low : Nat
  /-- The greatest next byte. -/
  high : Nat
  /-- The bits of the code point read so far. -/
  bits : Nat
  deriving DecidableEq, Repr

/-- What the first byte of a character of more than one byte announces. The bounds on the second
byte rule out overlong forms, surrogates and code points beyond the last. -/
def PartialChar.ofLead? (byte : Nat) : Option PartialChar :=
  if 0xC2 ≤ byte ∧ byte ≤ 0xDF then some ⟨1, 1, 0x80, 0xBF, byte - 0xC0⟩
  else if byte = 0xE0 then some ⟨1, 2, 0xA0, 0xBF, 0⟩
  else if byte = 0xED then some ⟨1, 2, 0x80, 0x9F, 0xD⟩
  else if 0xE1 ≤ byte ∧ byte ≤ 0xEF then some ⟨1, 2, 0x80, 0xBF, byte - 0xE0⟩
  else if byte = 0xF0 then some ⟨1, 3, 0x90, 0xBF, 0⟩
  else if 0xF1 ≤ byte ∧ byte ≤ 0xF3 then some ⟨1, 3, 0x80, 0xBF, byte - 0xF0⟩
  else if byte = 0xF4 then some ⟨1, 3, 0x80, 0x8F, 4⟩
  else none

/-- The characters of `bytes`, of which `index` bytes stand before the character being read. -/
def decodeUtf8From (index : Nat) : Option PartialChar → List UInt8 → Except Utf8Fault (List Char)
  | none, [] => .ok []
  | some _, [] => .error (.incomplete index)
  | none, b :: bytes =>
    if b.toNat < 0x80 then
      (decodeUtf8From (index + 1) none bytes).map (Char.ofNat b.toNat :: ·)
    else
      match PartialChar.ofLead? b.toNat with
      | some p => decodeUtf8From index (some p) bytes
      | none => .error (.invalid 1 index)
  | some p, b :: bytes =>
    if p.low ≤ b.toNat ∧ b.toNat ≤ p.high then
      let bits := p.bits * 0x40 + b.toNat % 0x40
      if p.owed = 1 then
        (decodeUtf8From (index + p.seen + 1) none bytes).map (Char.ofNat bits :: ·)
      else
        decodeUtf8From index (some ⟨p.seen + 1, p.owed - 1, 0x80, 0xBF, bits⟩) bytes
    else
      .error (.invalid p.seen index)

/-- The text whose UTF-8 form is `bytes`, or why there is none. -/
def decodeUtf8 (bytes : List UInt8) : Except Utf8Fault String :=
  (decodeUtf8From 0 none bytes).map String.ofList

end SqlFormatter
