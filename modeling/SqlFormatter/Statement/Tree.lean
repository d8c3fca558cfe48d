import SqlFormatter.Statement.Basic
import SqlFormatter.Text.Json

/-!
# SqlFormatter.Statement.Tree

The syntax tree of a statement as a JSON document, with all positions.
-/

namespace SqlFormatter

/-- The document of an optional part. -/
def Json.ofOption (j : Option Json) : Json := j.getD .null

/-- An object with one field, whose name tells what the value is. -/
def Json.tagged (tag : String) (fields : List (String × Json)) : Json :=
  .object [(tag, .object fields)]

/-- The name of the operator in a syntax tree. -/
def UnaryOp.tag : UnaryOp → String
  | plus => "Plus"
  | neg => "Neg"

/-- The name of the operator in a syntax tree. -/
def BinaryOp.tag : BinaryOp → String
  | or => "Or"
  | and => "And"
  | eq => "Eq"
  | notEq => "NotEq"
  | lt => "Lt"
  | ltEq => "LtEq"
  | gt => "Gt"
  | gtEq => "GtEq"
  | add => "Add"
  | sub => "Sub"
  | mul => "Mul"
  | div => "Div"
  | mod => "Mod"

/-- The name of the kind in a syntax tree. -/
def LiteralKind.tag : LiteralKind → String
  | integer => "Int"
  | real => "Real"
  | string => "String"

namespace Expr

/-- The document of a literal. -/
def literalTree (pos : Nat) (kind value : String) : Json :=
  .tagged "BasicLit" [("pos", .number pos), ("kind", .text kind), ("value", .text value)]

mutual

/-- The document of the expression. -/
def tree (e : Expr) : Json :=
  match e with
  | column none name =>
    .tagged "Ident" [("pos", .number name.pos), ("table", .null), ("name_pos", .number name.pos),
      ("name", .text name.text)]
  | column (some table) name =>
    .tagged "Ident" [("pos", .number table.pos), ("table", .text table.text),
      ("name_pos", .number name.pos), ("name", .text name.text)]
  | literal pos kind text => literalTree pos kind.tag text
  | wildcard pos => literalTree pos "Wildcard" "*"
  | unary opPos op x =>
    .tagged "Unary" [("op_pos", .number opPos), ("op", .text op.tag), ("x", x.tree)]
  | binary x opPos op y =>
    .tagged "Binary" [("x", x.tree), ("op_pos", .number opPos), ("op", .text op.tag),
      ("y", y.tree)]
  | call function lparen args rparen =>
    .tagged "Call" [("pos", .number function.pos), ("func_name", .text function.text),
      ("lparen", .number lparen), ("args", .list (treesOfList args)), ("rparen", .number rparen)]
  | case pos key first others otherwise endPos =>
    .tagged "Case" [
      ("pos", .number pos),
      ("switch_key", match key with
        | none => .null
        | some k => k.tree),
      ("whens", .list (treeOfArm first :: treesOfArms others)),
      ("else_clause", match otherwise with
        | none => .null
        | some ⟨elsePos, result⟩ =>
          .object [("pos", .number elsePos), ("result", result.tree)]),
      ("end_pos", .number endPos)]
  | isNull x isPos nullPos =>
    .tagged "IsNull" [("x", x.tree), ("is_pos", .number isPos), ("null_pos", .number nullPos)]
  | paren lparen x rparen =>
    .tagged "Paren" [("lparen", .number lparen), ("x", x.tree), ("rparen", .number rparen)]

/-- The documents of the expressions. -/
def treesOfList : List Expr → List Json
  | [] => []
  | e :: es => e.tree :: treesOfList es

/-- The document of the arm. -/
def treeOfArm : Arm → Json
  | ⟨pos, cond, thenPos, result⟩ =>
    .object [("pos", .number pos), ("cond", cond.tree), ("then_pos", .number thenPos),
      ("result", result.tree)]

/-- The documents of the arms. -/
def treesOfArms : List Arm → List Json
  | [] => []
  | a :: as => treeOfArm a :: treesOfArms as

end

end Expr

/-- The document of the alias. -/
def Alias.tree (a : Alias) : Json :=
  .object [("as_pos", .number a.asPos), ("name_pos", .number a.name.pos),
    ("name", .text a.name.text)]

/-- The document of the column. -/
def Column.tree (c : Column) : Json :=
  .object [("expr", c.expr.tree), ("alias", .ofOption (c.asName.map Alias.tree))]

/-- The document of the table. -/
def Table.tree (t : Table) : Json :=
  .object [
    ("expr", .tagged "Basic" [("pos", .number t.name.pos), ("name", .text t.name.text)]),
    ("alias", .ofOption (t.asName.map Alias.tree))]

/-- The document of the clause, whose items stand under the name `items`. -/
def ByClause.tree (items : String) (c : ByClause) : Json :=
  .object [("pos", .number c.pos), ("by_pos", .number c.byPos),
    (items, .list (c.items.toList.map Expr.tree))]

/-- The document of the comment group. -/
def CommentGroup.tree (g : CommentGroup) : Json :=
  .object [("list", .list (g.toList.map fun c =>
    .object [("pos", .number c.pos), ("text", .text c.text)]))]

/-- The document of the statement. -/
def Statement.tree (s : Statement) : Json :=
  .tagged "Select" [
    ("select", .object [("pos", .number s.select.pos),
      ("cols", .list (s.select.columns.toList.map Column.tree))]),
    ("from", .object [("pos", .number s.fromClause.pos),
      ("tables", .list (s.fromClause.tables.toList.map Table.tree))]),
    ("where_clause", .ofOption (s.whereClause.map fun c =>
      .object [("pos", .number c.pos), ("cond", c.cond.tree)])),
    ("group_by", .ofOption (s.groupBy.map (ByClause.tree "groups"))),
    ("order_by", .ofOption (s.orderBy.map (ByClause.tree "orders"))),
    ("comments", .list (s.comments.map CommentGroup.tree))]

end SqlFormatter
