import SqlFormatter.Token.Basic

/-!
# SqlFormatter.Expr.Operator

The operators of expressions. Binary operators have a precedence from 1 to 5; the higher one binds
tighter, and operators of one precedence group from the left.
-/

namespace SqlFormatter

/-- The operators that stand before their operand. -/
inductive UnaryOp where
  | plus | neg
  deriving DecidableEq, Repr

namespace UnaryOp

/-- The operator as it is printed. -/
def word : UnaryOp → String
  | plus => "+"
  | neg => "-"

/-- The operator that a token of this kind is where an operand is expected. -/
def ofKind? : Kind → Option UnaryOp
  | .plus => some plus
  | .minus => some neg
  | _ => none

end UnaryOp

/-- The operators that stand between two operands. -/
inductive BinaryOp where
  | or | and
  | eq | notEq | lt | ltEq | gt | gtEq
  | add | sub
  | mul | div | mod
  deriving DecidableEq, Repr

namespace BinaryOp

/-- Every binary operator. -/
def all : List BinaryOp := [or, and, eq, notEq, lt, ltEq, gt, gtEq, add, sub, mul, div, mod]

/-- The operator as it is printed, in upper case if it is a word. -/
def word : BinaryOp → String
  | or => "OR"
  | and => "AND"
  | eq => "="
  | notEq => "<>"
  | lt => "<"
  | ltEq => "<="
  | gt => ">"
  | gtEq => ">="
  | add => "+"
  | sub => "-"
  | mul => "*"
  | div => "/"
  | mod => "%"

/-- How tight the operator binds. -/
def precedence : BinaryOp → Nat
  | or => 1
  | and => 2
  | eq | notEq | lt | ltEq | gt | gtEq => 3
  | add | sub => 4
  | mul | div | mod => 5

/-- Whether the operator connects conditions. -/
def isLogical : BinaryOp → Bool
  | or | and => true
  | _ => false

/-- The kind of token that stands for the operator. -/
def kind : BinaryOp → Kind
  | or => .keyword .OR
  | and => .keyword .AND
  | eq => .eq
  | notEq => .notEq
  | lt => .lt
  | ltEq => .ltEq
  | gt => .gt
  | gtEq => .gtEq
  | add => .plus
  | sub => .minus
  | mul => .star
  | div => .slash
  | mod => .percent

/-- The operator that a token of this kind is after an operand. -/
def ofKind? : Kind → Option BinaryOp
  | .keyword .OR => some or
  | .keyword .AND => some and
  | .eq => some eq
  | .notEq => some notEq
  | .lt => some lt
  | .ltEq => some ltEq
  | .gt => some gt
  | .gtEq => some gtEq
  | .plus => some add
  | .minus => some sub
  | .star => some mul
  | .slash => some div
  | .percent => some mod
  | _ => none

theorem ofKind?_kind (op : BinaryOp) : ofKind? op.kind = some op := by cases op <;> rfl

theorem kind_of_ofKind?_eq_some {k : Kind} {op : BinaryOp} (h : ofKind? k = some op) :
    op.kind = k := by
  unfold ofKind? at h
  split at h <;> cases h <;> rfl

end BinaryOp

end SqlFormatter
