import SqlFormatter.Layout.Expression
import SqlFormatter.Statement.Basic
import SqlFormatter.Text.Buffer

/-!
# SqlFormatter.Layout.Statement

The canonical layout of a statement: first its comments, a line each; then each clause with its
keywords on a line and its items below, one to a line; and a semicolon, if the style asks for one.
-/

namespace SqlFormatter

/-- The name, with AS and the alias if there is one. -/
def Style.aliased (style : Style) (text : String) : Option Alias → String
  | none => text
  | some a => text ++ " " ++ style.keyword .AS ++ " " ++ a.name.text

/-- The column on one line. -/
def Column.text (style : Style) (c : Column) : String := style.aliased (c.expr.text style) c.asName

/-- The table on one line. -/
def Table.text (style : Style) (t : Table) : String := style.aliased t.name.text t.asName

/-- The comments, each on a line of its own. -/
def CommentGroup.layout (style : Style) (g : CommentGroup) : String :=
  String.join (g.toList.map fun c => c.text ++ style.newline)

/-- The layout of the SELECT clause. -/
def SelectClause.layout (style : Style) (c : SelectClause) : String :=
  style.block (style.keyword .SELECT) "," (c.columns.map (Column.text style))

/-- The layout of the FROM clause. -/
def FromClause.layout (style : Style) (c : FromClause) : String :=
  style.block (style.keyword .FROM) "," (c.tables.map (Table.text style))

/-- The layout of the WHERE clause. -/
def WhereClause.layout (style : Style) (c : WhereClause) : String :=
  style.block (style.keyword .WHERE) "" (c.cond.conditionLines style)

/-- The layout of the clause of the keyword `k` and BY. -/
def ByClause.layout (style : Style) (k : Keyword) (c : ByClause) : String :=
  style.block (style.keyword k ++ " " ++ style.keyword .BY) ","
    (c.items.map (Expr.text style))

/-- The canonical layout of the statement. -/
def Statement.layout (style : Style) (s : Statement) : String :=
  String.join (s.comments.map (CommentGroup.layout style)) ++
    s.select.layout style ++ s.fromClause.layout style ++
    (s.whereClause.map (WhereClause.layout style)).getD "" ++
    (s.groupBy.map (ByClause.layout style .GROUP)).getD "" ++
    (s.orderBy.map (ByClause.layout style .ORDER)).getD "" ++
    (if style.semicolon then ";" else "")

/-- Writes the canonical layout of the statement to a buffer. -/
def Statement.writeTo (s : Statement) (style : Style) (b : Buffer) :
    Except BufferFault Unit × Buffer :=
  b.write (encodeUtf8 (s.layout style))

end SqlFormatter
