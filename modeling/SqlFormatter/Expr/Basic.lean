import SqlFormatter.Expr.Operator

/-!
# SqlFormatter.Expr.Basic

Expressions as they stand in the source: names and literals keep their text, parentheses have a
node of their own, and every token has its position. So an expression and its source text differ in
nothing but gaps and comments.
-/

namespace SqlFormatter

/-- A name and the position of its first byte. -/
structure Name where
  /-- The position of the first byte. -/
  pos : Nat
  /-- The name. -/
  text : String
  deriving DecidableEq, Repr

/-- The position just past the name. -/
def Name.stop (n : Name) : Nat := n.pos + byteLength n.text.toList

/-- The kinds of literal. -/
inductive LiteralKind where
  | integer | real | string
  deriving DecidableEq, Repr

mutual

/-- An expression. -/
inductive Expr where
  /-- A column, perhaps with the table that it is of. -/
  | column (qualifier : Option Name) (name : Name)
  /-- A number with its sign, or a text with its quotation marks. -/
  | literal (pos : Nat) (kind : LiteralKind) (text : String)
  /-- A star in the place of an operand. -/
  | wildcard (pos : Nat)
  /-- An operator before its operand. -/
  | unary (opPos : Nat) (op : UnaryOp) (x : Expr)
  /-- An operator between its operands. -/
  | binary (x : Expr) (opPos : Nat) (op : BinaryOp) (y : Expr)
  /-- A function applied to arguments. -/
  | call (function : Name) (lparen : Nat) (args : List Expr) (rparen : Nat)
  /-- A choice, perhaps by the value of a key. It has at least one arm. -/
  | case (pos : Nat) (key : Option Expr) (first : Arm) (others : List Arm)
      (otherwise : Option Otherwise) (endPos : Nat)
  /-- The test whether `x` is null. -/
  | isNull (x : Expr) (isPos nullPos : Nat)
  /-- An expression in parentheses. -/
  | paren (lparen : Nat) (x : Expr) (rparen : Nat)

/-- An arm of a choice. -/
structure Arm where
  /-- The position of WHEN. -/
  pos : Nat
  /-- What is tested. -/
  cond : Expr
  /-- The position of THEN. -/
  thenPos : Nat
  /-- The value if the test holds. -/
  result : Expr

/-- The last part of a choice, for when no test holds. -/
structure Otherwise where
  /-- The position of ELSE. -/
  pos : Nat
  /-- The value. -/
  result : Expr

end

namespace Expr

/-- A choice with the given arms, of which there must be one. -/
def caseOf (pos : Nat) (key : Option Expr) (arms : List Arm) (otherwise : Option Otherwise)
    (endPos : Nat) : Except Violation Expr :=
  match arms with
  | [] => .error .noArms
  | first :: others => .ok (.case pos key first others otherwise endPos)

/-- The operator of a binary expression. -/
def binaryOp? : Expr → Option BinaryOp
  | binary _ _ op _ => some op
  | _ => none

end Expr

end SqlFormatter
