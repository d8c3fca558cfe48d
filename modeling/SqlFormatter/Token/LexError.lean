import SqlFormatter.Source.File
import SqlFormatter.Text.Quoted

/-!
# SqlFormatter.Token.LexError

What is reported while a text is cut into tokens. A `LexError` ends the scan of a token without
one; a character that no token starts with is only reported, and gives a token of its own.
-/

namespace SqlFormatter

/-- What the character after the well-formed part of a number breaks. -/
inductive NumberFault where
  | secondPoint
  | pointAfterExponent
  | secondExponent
  | exponentWithoutDigits
  deriving DecidableEq, Repr

/-- The text of the fault. -/
def NumberFault.message : NumberFault → String
  | secondPoint => "second decimal point"
  | pointAfterExponent => "decimal point after exponent"
  | secondExponent => "second exponent marker"
  | exponentWithoutDigits => "exponent has no digits"

/-- Why no token can be made of the text. -/
inductive LexFault where
  /-- The input ends before the closing quotation mark. -/
  | unterminatedString
  /-- The input ends before the end of the block comment. -/
  | unterminatedComment
  /-- A number is followed by a character that cannot continue it; the text ends with that one. -/
  | malformedNumber (text : String) (fault : NumberFault)
  /-- The time for scanning has passed. -/
  | deadlineExceeded
  deriving DecidableEq, Repr

/-- A fault in the token that starts at `pos`. -/
structure LexError where
  /-- The position of the first byte of the token. -/
  pos : Nat
  /-- What is wrong with it. -/
  fault : LexFault
  deriving DecidableEq, Repr

/-- The text of the error. -/
def LexError.message (e : LexError) : String :=
  match e.fault with
  | .unterminatedString => s!"unterminated string literal starting at {e.pos}"
  | .unterminatedComment => s!"unterminated block comment starting at {e.pos}"
  | .malformedNumber text fault => s!"malformed number `{text}` at {e.pos}: {fault.message}"
  | .deadlineExceeded => s!"scan deadline exceeded in token starting at {e.pos}"

/-- What a scanner tells about a problem in the text. -/
inductive Report where
  /-- No token starts with this character. -/
  | illegalCharacter (pos : Nat) (c : Char)
  /-- No token could be made. -/
  | fatal (error : LexError)
  deriving DecidableEq, Repr

namespace Report

/-- The position of the token concerned. -/
def pos : Report → Nat
  | illegalCharacter pos _ => pos
  | fatal error => error.pos

/-- The text of the report. -/
def message : Report → String
  | illegalCharacter _ c => s!"illegal character {quoteChar c}"
  | fatal error => error.message

end Report

end SqlFormatter
