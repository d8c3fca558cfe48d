import SqlFormatter.Expr.Basic
import SqlFormatter.Layout.Style

/-!
# SqlFormatter.Layout.Expression

Expressions on one line. Parentheses of the tree are kept. More are added where the tree has an
operand that binds looser than its place asks for: around a binary operand of a unary operator or
of a test for null, and around an operand of a binary operator according to the precedences, where
the right side must bind tighter than the operator.
-/

namespace SqlFormatter

/-- The text in parentheses. -/
def parenthesized (text : String) : String := "(" ++ text ++ ")"

/-- The text, in parentheses if they are needed. -/
def parenthesizedIf (needed : Bool) (text : String) : String :=
  if needed then parenthesized text else text

namespace Expr

/-- Whether the expression is a binary one. -/
def isBinary (e : Expr) : Bool := e.binaryOp?.isSome

/-- Whether the expression needs parentheses on the left of an operator. -/
def isLooserThan (e : Expr) (op : BinaryOp) : Bool :=
  e.binaryOp?.any fun o => o.precedence < op.precedence

/-- Whether the expression needs parentheses on the right of an operator. -/
def isNotTighterThan (e : Expr) (op : BinaryOp) : Bool :=
  e.binaryOp?.any fun o => o.precedence ≤ op.precedence

mutual

/-- The expression on one line. -/
def text (style : Style) : Expr → String
  | column none name => name.text
  | column (some table) name => table.text ++ "." ++ name.text
  | literal _ _ text => text
  | wildcard _ => "*"
  | unary _ op x => op.word ++ parenthesizedIf x.isBinary (x.text style)
  | binary x _ op y =>
    parenthesizedIf (x.isLooserThan op) (x.text style) ++ " " ++ style.operator op ++ " " ++
      parenthesizedIf (y.isNotTighterThan op) (y.text style)
  | call function _ args _ =>
    function.text ++ parenthesized (", ".intercalate (textsOfList style args))
  | case _ key first others otherwise _ =>
    style.keyword .CASE ++
      (match key with
        | none => ""
        | some k => " " ++ k.text style) ++
      textOfArm style first ++ textOfArms style others ++
      (match otherwise with
        | none => ""
        | some ⟨_, result⟩ => " " ++ style.keyword .ELSE ++ " " ++ result.text style) ++
      " " ++ style.keyword .END
  | isNull x _ _ =>
    parenthesizedIf x.isBinary (x.text style) ++ " " ++ style.keyword .IS ++ " " ++
      style.keyword .NULL
  | paren _ x _ => parenthesized (x.text style)

/-- The expressions, each on one line. -/
def textsOfList (style : Style) : List Expr → List String
  | [] => []
  | e :: es => e.text style :: textsOfList style es

/-- A blank and the arm. -/
def textOfArm (style : Style) : Arm → String
  | ⟨_, cond, _, result⟩ =>
    " " ++ style.keyword .WHEN ++ " " ++ cond.text style ++ " " ++ style.keyword .THEN ++ " " ++
      result.text style

/-- The arms, with a blank before each. -/
def textOfArms (style : Style) : List Arm → String
  | [] => ""
  | a :: as => textOfArm style a ++ textOfArms style as

end

/-- The expression as the left operand of `op`, on one line. -/
def leftOperand (style : Style) (op : BinaryOp) (x : Expr) : String :=
  parenthesizedIf (x.isLooserThan op) (x.text style)

/-- The expression as the right operand of `op`, on one line. -/
def rightOperand (style : Style) (op : BinaryOp) (y : Expr) : String :=
  parenthesizedIf (y.isNotTighterThan op) (y.text style)

/-- The operands of the chain of operators `op` that the expression is, where the left operand of an
operator may be a chain, too. -/
def chain (op : BinaryOp) (e : Expr) : NonemptyList Expr :=
  match e with
  | binary x _ o y =>
    if o = op then
      let operands := x.chain op
      ⟨operands.first, operands.others ++ [y]⟩
    else ⟨e, []⟩
  | _ => ⟨e, []⟩

/-- A condition over several lines: if AND or OR is its root, the operands of the chain of that
operator, with the operator before each but the first. -/
def conditionLines (style : Style) (e : Expr) : NonemptyList String :=
  match e.binaryOp?.filter BinaryOp.isLogical with
  | none => ⟨e.text style, []⟩
  | some op =>
    let operands := e.chain op
    ⟨operands.first.leftOperand style op,
      operands.others.map fun y => style.operator op ++ " " ++ y.rightOperand style op⟩

end Expr

end SqlFormatter
