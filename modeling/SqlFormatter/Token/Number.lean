import SqlFormatter.Token.LexError

/-!
# SqlFormatter.Token.Number

Numbers without a sign: digits, then perhaps a point and more digits, then perhaps an exponent, a
marker with a sign or without and at least one digit. `readNumber` reads as far as the text can be
the start of a number, and says what the next character breaks.
-/

namespace SqlFormatter

/-- What was read off the front of a text, what is left of it, and what came of it. -/
structure Cut (α : Type) where
  /-- The characters read. -/
  text : List Char
  /-- The characters left. -/
  rest : List Char
  /-- What came of it. -/
  result : α
  deriving Repr

/-- The same reading with `read` in front. -/
def Cut.after {α : Type} (read : List Char) (c : Cut α) : Cut α :=
  { c with text := read ++ c.text }

@[simp] theorem Cut.text_after {α : Type} (read : List Char) (c : Cut α) :
    (c.after read).text = read ++ c.text := rfl

@[simp] theorem Cut.rest_after {α : Type} (read : List Char) (c : Cut α) :
    (c.after read).rest = c.rest := rfl

@[simp] theorem Cut.result_after {α : Type} (read : List Char) (c : Cut α) :
    (c.after read).result = c.result := rfl

/-- The last part of a number that has been entered. -/
inductive NumberPart where
  /-- The digits before the point. -/
  | whole
  /-- The digits after the point. -/
  | fraction
  /-- The digits after the exponent marker. -/
  | exponent
  deriving DecidableEq, Repr

/-- The characters that start an exponent. -/
def isExponentMarker (c : Char) : Bool := c == 'e' || c == 'E'

/-- The characters that may follow an exponent marker in place of a digit. -/
def isSign (c : Char) : Bool := c == '+' || c == '-'

/-- Whether the text starts with a digit. -/
def startsWithDigit (cs : List Char) : Bool := cs.head?.any Char.isDigit

/-- Reads on in a number of which `part` has been entered. -/
def readNumber (part : NumberPart) : List Char → Cut (Except NumberFault NumberPart)
  | [] => ⟨[], [], .ok part⟩
  | c :: cs =>
    if c.isDigit then (readNumber part cs).after [c]
    else if c = '.' then
      match part with
      | .whole => (readNumber .fraction cs).after [c]
      | .fraction => ⟨[], c :: cs, .error .secondPoint⟩
      | .exponent => ⟨[], c :: cs, .error .pointAfterExponent⟩
    else if isExponentMarker c then
      if part = .exponent then ⟨[], c :: cs, .error .secondExponent⟩
      else
        match cs with
        | [] => ⟨[c], [], .error .exponentWithoutDigits⟩
        | s :: ds =>
          if isSign s then
            if startsWithDigit ds then (readNumber .exponent ds).after [c, s]
            else ⟨[c, s], ds, .error .exponentWithoutDigits⟩
          else if s.isDigit then (readNumber .exponent (s :: ds)).after [c]
          else ⟨[c], s :: ds, .error .exponentWithoutDigits⟩
    else ⟨[], c :: cs, .ok part⟩

theorem readNumber_digit {part : NumberPart} {c : Char} {cs : List Char} (h : c.isDigit = true) :
    readNumber part (c :: cs) = (readNumber part cs).after [c] := by
  conv => lhs; unfold readNumber
  exact if_pos h

/-- Nothing is lost or reordered. -/
theorem readNumber_append (part : NumberPart) (cs : List Char) :
    (readNumber part cs).text ++ (readNumber part cs).rest = cs := by
  fun_induction readNumber part cs <;> simp_all

end SqlFormatter
