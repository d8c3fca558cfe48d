import SqlFormatter.Statement.Basic

/-!
# SqlFormatter.Statement.Range

The piece of source that each part of a statement covers. `Statement.outline` lists all parts in
the order in which a reader meets them, each clause before its items and each expression before its
operands.
-/

namespace SqlFormatter

/-- The piece of source from AS to the name. -/
def Alias.range (a : Alias) : Range := ⟨a.asPos, a.name.stop⟩

/-- The piece of source that the column and its alias cover. -/
def Column.range (c : Column) : Range :=
  ⟨c.expr.pos, (c.asName.map (·.range.stop)).getD c.expr.stop⟩

/-- The piece of source that the table and its alias cover. -/
def Table.range (t : Table) : Range :=
  ⟨t.name.pos, (t.asName.map (·.range.stop)).getD t.name.stop⟩

/-- The piece of source from SELECT to the last column. -/
def SelectClause.range (c : SelectClause) : Range := ⟨c.pos, c.columns.last.range.stop⟩

/-- The piece of source from FROM to the last table. -/
def FromClause.range (c : FromClause) : Range := ⟨c.pos, c.tables.last.range.stop⟩

/-- The piece of source from WHERE to the end of the condition. -/
def WhereClause.range (c : WhereClause) : Range := ⟨c.pos, c.cond.stop⟩

/-- The piece of source from the first keyword to the last expression. -/
def ByClause.range (c : ByClause) : Range := ⟨c.pos, c.items.last.stop⟩

/-- The kinds of clause. -/
inductive ClauseKind where
  | selectClause | fromClause | whereClause | groupByClause | orderByClause
  deriving DecidableEq, Repr

/-- The words that the clause starts with. -/
def ClauseKind.keywords : ClauseKind → List Keyword
  | selectClause => [.SELECT]
  | fromClause => [.FROM]
  | whereClause => [.WHERE]
  | groupByClause => [.GROUP, .BY]
  | orderByClause => [.ORDER, .BY]

/-- The kinds of part of a statement. -/
inductive Part where
  | statement
  | clause (kind : ClauseKind)
  | column | table | tableName | asName
  | whereClause | groupByClause | orderByClause
  | columnName | literal | unary | binary | call | isNull | paren
  /-- A choice without a key. -/
  | searchedCase
  /-- A choice by the value of a key. -/
  | keyedCase
  | key | arm | otherwise
  | commentGroup | comment
  deriving DecidableEq, Repr

/-- Parts of a statement, each with the piece of source that it covers. -/
abbrev Outline := List (Part × Range)

namespace Expr

mutual

/-- The expression and its parts. -/
def outline (e : Expr) : Outline :=
  match e with
  | column .. => [(.columnName, e.range)]
  | literal .. | wildcard .. => [(.literal, e.range)]
  | unary _ _ x => (.unary, e.range) :: x.outline
  | binary x _ _ y => (.binary, e.range) :: (x.outline ++ y.outline)
  | call _ _ args _ => (.call, e.range) :: outlineOfList args
  | case _ key first others otherwise _ =>
    (match key with
      | none => [(.searchedCase, e.range)]
      | some k => (.keyedCase, e.range) :: (.key, k.range) :: k.outline) ++
    outlineOfArm first ++ outlineOfArms others ++
    (match otherwise with
      | none => [(.otherwise, .absent)]
      | some ⟨pos, result⟩ => (.otherwise, ⟨pos, result.stop⟩) :: result.outline)
  | isNull x _ _ => (.isNull, e.range) :: x.outline
  | paren _ x _ => (.paren, e.range) :: x.outline

/-- The expressions and their parts. -/
def outlineOfList : List Expr → Outline
  | [] => []
  | e :: es => e.outline ++ outlineOfList es

/-- The arm and its parts. -/
def outlineOfArm : Arm → Outline
  | ⟨pos, cond, _, result⟩ => (.arm, ⟨pos, result.stop⟩) :: (cond.outline ++ result.outline)

/-- The arms and their parts. -/
def outlineOfArms : List Arm → Outline
  | [] => []
  | a :: as => outlineOfArm a ++ outlineOfArms as

end

end Expr

/-- The alias, if there is one. -/
def Alias.outline (a : Option Alias) : Outline :=
  [(.asName, (a.map Alias.range).getD .absent)]

/-- The column and its parts. -/
def Column.outline (c : Column) : Outline :=
  (.column, c.range) :: (Alias.outline c.asName ++ c.expr.outline)

/-- The table and its parts. -/
def Table.outline (t : Table) : Outline :=
  (.table, t.range) :: (Alias.outline t.asName ++ [(.tableName, t.name.range)])

/-- The comment group and its comments. -/
def CommentGroup.outline (g : CommentGroup) : Outline :=
  (.commentGroup, g.range) :: g.toList.map fun c => (.comment, c.range)

namespace Statement

/-- The clauses that the statement has, in order. -/
def clauses (s : Statement) : List (ClauseKind × Range) :=
  [(.selectClause, s.select.range), (.fromClause, s.fromClause.range)] ++
  (s.whereClause.map fun c => (.whereClause, c.range)).toList ++
  (s.groupBy.map fun c => (.groupByClause, c.range)).toList ++
  (s.orderBy.map fun c => (.orderByClause, c.range)).toList

/-- The piece of source from SELECT to the end of the last clause. -/
def range (s : Statement) : Range where
  pos := s.select.pos
  stop :=
    match s.orderBy, s.groupBy, s.whereClause with
    | some c, _, _ => c.range.stop
    | none, some c, _ => c.range.stop
    | none, none, some c => c.range.stop
    | none, none, none => s.fromClause.range.stop

/-- The statement and all its parts. -/
def outline (s : Statement) : Outline :=
  [(.statement, s.range)] ++ s.clauses.map (fun c => (.clause c.1, c.2)) ++
  s.select.columns.toList.flatMap Column.outline ++
  s.fromClause.tables.toList.flatMap Table.outline ++
  (match s.whereClause with
    | none => [(.whereClause, .absent)]
    | some c => (.whereClause, c.range) :: c.cond.outline) ++
  (match s.groupBy with
    | none => [(.groupByClause, .absent)]
    | some c => (.groupByClause, c.range) :: c.items.toList.flatMap Expr.outline) ++
  (match s.orderBy with
    | none => [(.orderByClause, .absent)]
    | some c => (.orderByClause, c.range) :: c.items.toList.flatMap Expr.outline) ++
  s.comments.flatMap CommentGroup.outline

/-- The comments before the statement, if there are any. -/
def leadingComments (s : Statement) : Option CommentGroup :=
  s.comments.head?.filter fun g => g.range.stop ≤ s.select.pos

end Statement

end SqlFormatter
