import SqlFormatter.Source.File
import SqlFormatter.Text.Utf8
import SqlFormatter.Token.Keyword

/-!
# SqlFormatter.Token.Basic

Tokens: a kind, the exact text, and the position of its first byte.

`Kind.endsOperand` settles what a minus before a digit is: after a token that can end an operand it
is an operator, anywhere else the sign of the number.
-/

namespace SqlFormatter

/-- The kinds of token. -/
inductive Kind where
  /-- A name. -/
  | ident
  /-- A number without point and exponent. -/
  | integer
  /-- A number with a point or an exponent. -/
  | real
  /-- A text between quotation marks. -/
  | string
  /-- A reserved word. -/
  | keyword (k : Keyword)
  | plus | minus | star | slash | percent
  | eq | notEq | lt | ltEq | gt | gtEq
  | leftParen | rightParen | comma | semicolon | dot
  | comment
  | endOfInput
  /-- A character that no token starts with. -/
  | illegal
  deriving DecidableEq, Repr

namespace Kind

/-- Whether a token of this kind can be the last one of an operand. -/
def endsOperand : Kind → Bool
  | ident | integer | real | string | rightParen | keyword .END | keyword .NULL => true
  | _ => false

/-- The name of the kind in a diagnostic. -/
def label : Kind → String
  | ident => "identifier"
  | integer => "integer"
  | real => "real"
  | string => "string"
  | keyword k => k.word
  | plus => "`+`"
  | minus => "`-`"
  | star => "`*`"
  | slash => "`/`"
  | percent => "`%`"
  | eq => "`=`"
  | notEq => "`<>`"
  | lt => "`<`"
  | ltEq => "`<=`"
  | gt => "`>`"
  | gtEq => "`>=`"
  | leftParen => "`(`"
  | rightParen => "`)`"
  | comma => "`,`"
  | semicolon => "`;`"
  | dot => "`.`"
  | comment => "comment"
  | endOfInput => "end of input"
  | illegal => "illegal character"

end Kind

/-- A token of a source text. -/
structure Token where
  /-- The position of the first byte. -/
  pos : Nat
  /-- The kind. -/
  kind : Kind
  /-- The text as it stands in the source, empty at the end of input. -/
  text : String
  deriving DecidableEq, Repr

namespace Token

/-- The end of input at position `p`. -/
def endOfInput (p : Nat) : Token := ⟨p, .endOfInput, ""⟩

/-- The position just past the token. -/
def stop (t : Token) : Nat := t.pos + byteLength t.text.toList

/-- Whether the token is the end of input. -/
def isEndOfInput (t : Token) : Bool := t.kind == .endOfInput

/-- The keyword that the token is. -/
def keyword? (t : Token) : Option Keyword :=
  match t.kind with
  | .keyword k => some k
  | _ => none

/-- How a diagnostic shows the token: tokens that come in many spellings with their text. -/
def describe (t : Token) : String :=
  match t.kind with
  | .ident | .integer | .real | .string | .illegal => s!"{t.kind.label} `{t.text}`"
  | k => k.label

end Token

end SqlFormatter
