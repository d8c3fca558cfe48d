import SqlFormatter.Statement.Comment

/-!
# SqlFormatter.Statement.Basic

The SELECT statement: its clauses with the positions of their keywords, and the comments found
between its tokens. The lists of the clauses are never empty; the functions named `of…` check that.
-/

namespace SqlFormatter

/-- Another name for a column or a table. -/
structure Alias where
  /-- The position of AS. -/
  asPos : Nat
  /-- The name. -/
  name : Name
  deriving DecidableEq, Repr

/-- A column of the result. -/
structure Column where
  /-- Its value. -/
  expr : Expr
  /-- Its name, if it is given one. -/
  asName : Option Alias

/-- A table to select from. -/
structure Table where
  /-- The name of the table. -/
  name : Name
  /-- Its name in this statement, if it is given one. -/
  asName : Option Alias
  deriving DecidableEq, Repr

/-- The SELECT clause. -/
structure SelectClause where
  /-- The position of SELECT. -/
  pos : Nat
  /-- The columns. -/
  columns : NonemptyList Column

/-- The FROM clause. -/
structure FromClause where
  /-- The position of FROM. -/
  pos : Nat
  /-- The tables. -/
  tables : NonemptyList Table
  deriving DecidableEq, Repr

/-- The WHERE clause. -/
structure WhereClause where
  /-- The position of WHERE. -/
  pos : Nat
  /-- What holds of the rows selected. -/
  cond : Expr

/-- A GROUP BY or an ORDER BY clause. -/
structure ByClause where
  /-- The position of the first keyword. -/
  pos : Nat
  /-- The position of BY. -/
  byPos : Nat
  /-- What to group or to order by. -/
  items : NonemptyList Expr

/-- A SELECT statement. -/
structure Statement where
  /-- The columns. -/
  select : SelectClause
  /-- The tables. -/
  fromClause : FromClause
  /-- The condition. -/
  whereClause : Option WhereClause
  /-- The grouping. -/
  groupBy : Option ByClause
  /-- The ordering. -/
  orderBy : Option ByClause
  /-- The comments between the tokens, in order. -/
  comments : List CommentGroup

/-- The SELECT clause with these columns, of which there must be one. -/
def SelectClause.ofColumns (pos : Nat) (columns : List Column) : Except Violation SelectClause :=
  match NonemptyList.ofList? columns with
  | none => .error .noColumns
  | some columns => .ok ⟨pos, columns⟩

/-- The FROM clause with these tables, of which there must be one. -/
def FromClause.ofTables (pos : Nat) (tables : List Table) : Except Violation FromClause :=
  match NonemptyList.ofList? tables with
  | none => .error .noTables
  | some tables => .ok ⟨pos, tables⟩

/-- The GROUP BY clause with these expressions, of which there must be one. -/
def ByClause.ofGroups (pos byPos : Nat) (items : List Expr) : Except Violation ByClause :=
  match NonemptyList.ofList? items with
  | none => .error .noGroups
  | some items => .ok ⟨pos, byPos, items⟩

/-- The ORDER BY clause with these expressions, of which there must be one. -/
def ByClause.ofOrders (pos byPos : Nat) (items : List Expr) : Except Violation ByClause :=
  match NonemptyList.ofList? items with
  | none => .error .noOrders
  | some items => .ok ⟨pos, byPos, items⟩

end SqlFormatter
