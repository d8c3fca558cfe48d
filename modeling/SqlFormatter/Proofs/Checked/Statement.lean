import SqlFormatter.Proofs.Checked.Expression

/-!
# SqlFormatter.Proofs.Checked.Statement

The grammar of the SELECT statement, with checks: a clause is made of any list of items, and that
the list is not empty is an assertion. A run of the grammar comes to no panic, and has left all
levels when it is over, whatever the tokens (`sentence_gives`).
-/

namespace SqlFormatter.Checked

/-! ### Clauses -/

/-- As `Grammar.column`, with checks. -/
def column (outer : Rule Expr) : Rule Column := fun ts => do
  let (expr, rest) ← outer ts
  let (asName, rest) ← Grammar.optionalAlias rest
  return (⟨expr, asName⟩, rest)

/-- As `Grammar.selectClause`, with checks. -/
def selectClause (outer : Rule Expr) : Rule SelectClause := fun ts => do
  let (pos, rest) ← Grammar.keyword .SELECT ts
  let (columns, rest) ← commaList (column outer) rest
  if Grammar.startsWith (.keyword .FROM) rest then
    let clause ← assert (SelectClause.ofColumns pos columns)
    return (clause, rest)
  else unexpected .moreColumnsOrFrom rest

/-- As `Grammar.fromClause`, with checks. -/
def fromClause : Rule FromClause := fun ts => do
  let (pos, rest) ← Grammar.keyword .FROM ts
  let (tables, rest) ← commaList (fun us => liftM (Grammar.table us)) rest
  if Grammar.atTablesEnd rest then
    let clause ← assert (FromClause.ofTables pos tables)
    return (clause, rest)
  else unexpected .moreTablesOrEnd rest

/-- As `Grammar.whereClause`, with checks. -/
def whereClause (outer : Rule Expr) : Rule (Option WhereClause)
  | [] => return (none, [])
  | t :: ts =>
    if t.kind = .keyword .WHERE then do
      let (cond, rest) ← outer ts
      return (some ⟨t.pos, cond⟩, rest)
    else return (none, t :: ts)

/-- As `Grammar.byClause`, with checks; `make` makes the clause. -/
def byClause (outer : Rule Expr) (k : Keyword)
    (make : Nat → Nat → List Expr → Except Violation ByClause) : Rule (Option ByClause)
  | [] => return (none, [])
  | t :: ts =>
    if t.kind = .keyword k then do
      let (byPos, rest) ← Grammar.keyword .BY ts
      let (items, rest) ← commaList outer rest
      let clause ← assert (make t.pos byPos items)
      return (some clause, rest)
    else return (none, t :: ts)

/-! ### Statements -/

/-- As `Grammar.statement`, with checks. -/
def statement (outer : Rule Expr) : Rule Statement := fun ts =>
  if Grammar.startsWith (.keyword .SELECT) ts then do
    let (select, rest) ← selectClause outer ts
    let (fromClause, rest) ← fromClause rest
    let (whereClause, rest) ← whereClause outer rest
    let (groupBy, rest) ← byClause outer .GROUP ByClause.ofGroups rest
    let (orderBy, rest) ← byClause outer .ORDER ByClause.ofOrders rest
    return (⟨select, fromClause, whereClause, groupBy, orderBy, []⟩, rest)
  else unexpected .statement ts

/-- As `Grammar.sentence`, with checks. -/
def sentence (ts : List Token) : Run Statement := do
  let (s, rest) ← statement expression ts
  Grammar.ending rest
  return s

/-! ### No check fails -/

section Clauses

variable {checked : Rule Expr} {outer : Grammar.Rule Expr} {depth : Nat}

theorem column_agrees (h : Agrees checked outer depth) :
    Agrees (column checked) (Grammar.column outer) depth :=
  fun ts => (h ts).bind fun p _ => (Gives.lift (Grammar.optionalAlias p.2)).bind fun _ _ => .pure _

theorem selectClause_agrees (h : Agrees checked outer depth) (hsees : Grammar.Sees outer) :
    Agrees (selectClause checked) (Grammar.selectClause outer) depth := by
  refine fun ts => (Gives.lift (Grammar.keyword .SELECT ts)).bind fun p _ =>
    (commaList_gives (column_agrees h) (Grammar.column_sees hsees) p.2).bind_map fun q _ => ?_
  dsimp only
  split
  · exact (Gives.check rfl).bind fun _ _ => .pure _
  · exact .unexpected ..

theorem fromClause_agrees : Agrees fromClause Grammar.fromClause depth := by
  refine fun ts => (Gives.lift (Grammar.keyword .FROM ts)).bind fun p _ =>
    (commaList_gives (fun us => Gives.lift (Grammar.table us)) Grammar.table_sees p.2).bind_map
      fun q _ => ?_
  dsimp only
  split
  · exact (Gives.check rfl).bind fun _ _ => .pure _
  · exact .unexpected ..

theorem whereClause_agrees (h : Agrees checked outer depth) :
    Agrees (whereClause checked) (Grammar.whereClause outer) depth := by
  intro ts
  cases ts with
  | nil => exact .pure _
  | cons t ts =>
    unfold whereClause Grammar.whereClause
    dsimp only
    split
    · exact (h ts).bind fun _ _ => .pure _
    · exact .pure _

theorem byClause_agrees (h : Agrees checked outer depth) (hsees : Grammar.Sees outer) (k : Keyword)
    {make : Nat → Nat → List Expr → Except Violation ByClause}
    (hmake : ∀ p q (items : NonemptyList Expr), make p q items.toList = .ok ⟨p, q, items⟩) :
    Agrees (byClause checked k make) (Grammar.byClause outer k) depth := by
  intro ts
  cases ts with
  | nil => exact .pure _
  | cons t ts =>
    unfold byClause Grammar.byClause
    dsimp only
    split
    · exact (Gives.lift (Grammar.keyword .BY ts)).bind fun p _ =>
        (commaList_gives h hsees p.2).bind_map fun q _ =>
          (Gives.check (congrArg assert (hmake t.pos p.1 q.1))).bind fun _ _ => .pure _
    · exact .pure _

theorem statement_agrees (h : Agrees checked outer depth) (hsees : Grammar.Sees outer) :
    Agrees (statement checked) (Grammar.statement outer) depth := by
  intro ts
  unfold statement Grammar.statement
  cases Grammar.startsWith (.keyword .SELECT) ts with
  | false => exact .unexpected ..
  | true =>
    exact (selectClause_agrees h hsees ts).bind fun select _ => (fromClause_agrees _).bind
      fun _ _ => (whereClause_agrees h _).bind fun _ _ =>
        (byClause_agrees h hsees .GROUP (fun _ _ _ => rfl) _).bind fun _ _ =>
          (byClause_agrees h hsees .ORDER (fun _ _ _ => rfl) _).bind fun _ _ => .pure _

end Clauses

/-- On no tokens a check fails, and every level that is entered is left. -/
theorem sentence_gives (ts : List Token) : Gives (sentence ts) (Grammar.sentence ts) 0 :=
  (statement_agrees expression_agrees (Grammar.expression_sees _) ts).bind fun p _ =>
    (Gives.lift (Grammar.ending p.2)).bind fun _ _ => .pure _

end SqlFormatter.Checked
