import SqlFormatter.Token.LexError
import SqlFormatter.Token.Basic

/-!
# SqlFormatter.Grammar.ParseError

Why a text is no statement. The rules of the grammar refuse a list of tokens with a `Refusal`, which
knows only the tokens not yet read; a `ParseError` tells in addition what stands at its place.
-/

namespace SqlFormatter

/-- What a rule of the grammar needs in place of the token found. -/
inductive Expectation where
  | statement
  | moreColumnsOrFrom
  | moreTablesOrEnd
  | endOfStatement
  | expression
  | functionArgument
  /-- Expressions are nested as deep as they may be. -/
  | shallowerNesting
  | caseBranch
  /-- A token of this kind. -/
  | token (kind : Kind)
  /-- Something described in words. -/
  | words (text : String)
  deriving DecidableEq, Repr

/-- The text of the expectation. -/
def Expectation.text : Expectation → String
  | statement => "SELECT statement"
  | moreColumnsOrFrom => "`,` or FROM"
  | moreTablesOrEnd => "`,`, WHERE, GROUP BY, ORDER BY or end of statement"
  | endOfStatement => "end of statement"
  | expression => "expression"
  | functionArgument => "function argument"
  | shallowerNesting => "shallower nesting"
  | caseBranch => "WHEN, ELSE, or END"
  | token kind => kind.label
  | words text => text

/-- Constructs of the language that are recognised and not supported. -/
inductive Construct where
  | subquery | join | multipleStatements
  deriving DecidableEq, Repr

/-- The name of the construct. -/
def Construct.text : Construct → String
  | subquery => "subquery"
  | join => "JOIN"
  | multipleStatements => "multiple statements"

/-- What is wrong with the next token. -/
inductive Complaint where
  /-- It cannot stand here. -/
  | unexpected (expected : Expectation)
  /-- It shows that the construct at `pos` is one that is not supported. -/
  | unsupported (construct : Construct) (pos : Nat)
  deriving DecidableEq, Repr

/-- A rule's refusal of a list of tokens. -/
structure Refusal where
  /-- What is wrong with the next token. -/
  complaint : Complaint
  /-- The tokens not read, the next one first. -/
  rest : List Token
  deriving DecidableEq, Repr

/-- Why a text is no statement. -/
inductive ParseError where
  /-- It cannot be cut into tokens. -/
  | lexical (error : LexError)
  /-- A token cannot stand where it stands. -/
  | unexpected (expected : Expectation) (found : Token)
  /-- It has a construct that is not supported. -/
  | unsupported (construct : Construct) (pos : Nat)
  deriving DecidableEq, Repr

namespace ParseError

/-- The end of input at `pos`, in place of what was expected. -/
def unexpectedEnd (expected : Expectation) (pos : Nat) : ParseError :=
  .unexpected expected (.endOfInput pos)

/-- The position concerned. -/
def pos : ParseError → Nat
  | lexical error => error.pos
  | unexpected _ found => found.pos
  | unsupported _ pos => pos

/-- The text of the error. -/
def message : ParseError → String
  | lexical error => s!"lexical error: {error.message}"
  | unexpected expected found =>
    s!"syntax error at {found.pos}: expected {expected.text}, found {found.describe}"
  | unsupported construct pos => s!"unsupported construct at {pos}: {construct.text}"

end ParseError

/-- The complaint about token `t`. -/
def Complaint.about (c : Complaint) (t : Token) : ParseError :=
  match c with
  | unexpected expected => .unexpected expected t
  | unsupported construct pos => .unsupported construct pos

/-- The error in a text of which `closing` stands behind the last token: the end of input, or why
there is no further token. -/
def Refusal.error (r : Refusal) (closing : Except LexError Token) : ParseError :=
  match r.rest, closing with
  | t :: _, _ => r.complaint.about t
  | [], .ok t => r.complaint.about t
  | [], .error e => .lexical e

end SqlFormatter
