import SqlFormatter.Grammar.Expression
import SqlFormatter.Statement.Basic

/-!
# SqlFormatter.Grammar.Statement

The grammar of the SELECT statement, over tokens without comments. `sentence` takes a list of
tokens that must be one statement, perhaps with a semicolon at its end, and nothing else.

Joins, subqueries in place of a table and further statements are recognised, and refused as not
supported.

The rules that hold an expression take the rule for it as an argument, as those for expressions do.
`sentence` gives them the one with the limit on nesting.
-/

namespace SqlFormatter.Grammar

/-- Reads AS and a name, if AS is next. -/
def optionalAlias : Rule (Option Alias)
  | [] => .ok (none, [])
  | t :: ts =>
    if t.kind = .keyword .AS then do
      let (name, rest) ← identifier ts
      return (some ⟨t.pos, name⟩, rest)
    else .ok (none, t :: ts)

/-- Refuses the construct that the next token starts, if it is one of those tokens. -/
def refuse (construct : Construct) (starts : Token → Bool) : List Token → Except Refusal Unit
  | [] => .ok ()
  | t :: ts => if starts t then .error ⟨.unsupported construct t.pos, t :: ts⟩ else .ok ()

/-! ### Columns and tables -/

/-- Reads a column of the result. -/
def column (outer : Rule Expr) : Rule Column := fun ts => do
  let (expr, rest) ← outer ts
  let (asName, rest) ← optionalAlias rest
  return (⟨expr, asName⟩, rest)

/-- Reads the SELECT clause, which must have the FROM clause behind it. -/
def selectClause (outer : Rule Expr) : Rule SelectClause := fun ts => do
  let (pos, rest) ← keyword .SELECT ts
  let (columns, rest) ← commaList (column outer) rest
  if startsWith (.keyword .FROM) rest then return (⟨pos, columns⟩, rest)
  else unexpected .moreColumnsOrFrom rest

/-- The words that start a join behind a table, in capitals. -/
def joinWords : List String :=
  ["JOIN", "INNER", "LEFT", "RIGHT", "FULL", "OUTER", "CROSS", "NATURAL"]

/-- Whether the token starts a join when it stands behind a table: its letters may be of either
case. -/
def startsJoin (t : Token) : Bool := t.kind == .ident && joinWords.contains t.text.toUpper

/-- Reads a table to select from, which must not be part of a join. -/
def table : Rule Table := fun ts => do
  refuse .subquery (·.kind == .leftParen) ts
  let (name, rest) ← identifier ts
  let (asName, rest) ← optionalAlias rest
  refuse .join startsJoin rest
  return (⟨name, asName⟩, rest)

/-- Whether the tables may end before these tokens. -/
def atTablesEnd : List Token → Bool
  | [] => true
  | t :: _ =>
    [.keyword .WHERE, .keyword .GROUP, .keyword .ORDER, .semicolon].contains t.kind

/-- Reads the FROM clause. -/
def fromClause : Rule FromClause := fun ts => do
  let (pos, rest) ← keyword .FROM ts
  let (tables, rest) ← commaList table rest
  if atTablesEnd rest then return (⟨pos, tables⟩, rest)
  else unexpected .moreTablesOrEnd rest

/-! ### The clauses that may be left out -/

/-- Reads the WHERE clause, if it is next. -/
def whereClause (outer : Rule Expr) : Rule (Option WhereClause)
  | [] => .ok (none, [])
  | t :: ts =>
    if t.kind = .keyword .WHERE then do
      let (cond, rest) ← outer ts
      return (some ⟨t.pos, cond⟩, rest)
    else .ok (none, t :: ts)

/-- Reads the clause of the keyword `k` and BY, if it is next. -/
def byClause (outer : Rule Expr) (k : Keyword) : Rule (Option ByClause)
  | [] => .ok (none, [])
  | t :: ts =>
    if t.kind = .keyword k then do
      let (byPos, rest) ← keyword .BY ts
      let (items, rest) ← commaList outer rest
      return (some ⟨t.pos, byPos, items⟩, rest)
    else .ok (none, t :: ts)

/-! ### Statements -/

/-- Reads a statement, which gets no comments. -/
def statement (outer : Rule Expr) : Rule Statement := fun ts => do
  if !startsWith (.keyword .SELECT) ts then unexpected .statement ts
  let (select, rest) ← selectClause outer ts
  let (fromClause, rest) ← fromClause rest
  let (whereClause, rest) ← whereClause outer rest
  let (groupBy, rest) ← byClause outer .GROUP rest
  let (orderBy, rest) ← byClause outer .ORDER rest
  return (⟨select, fromClause, whereClause, groupBy, orderBy, []⟩, rest)

/-- Checks that nothing but perhaps a semicolon stands behind a statement. -/
def ending : List Token → Except Refusal Unit
  | [] => .ok ()
  | t :: ts =>
    if t.kind = .semicolon then refuse .multipleStatements (fun _ => true) ts
    else unexpected .endOfStatement (t :: ts)

/-- The statement that the tokens make up, with no comments, where `outer` reads the expressions
that are not inside another. -/
def sentenceOf (outer : Rule Expr) (ts : List Token) : Except Refusal Statement := do
  let (s, rest) ← statement outer ts
  ending rest
  return s

/-- The statement that the tokens make up, with no comments. -/
def sentence (ts : List Token) : Except Refusal Statement := sentenceOf (expression maxNesting) ts

end SqlFormatter.Grammar
