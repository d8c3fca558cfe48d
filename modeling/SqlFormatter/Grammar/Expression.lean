import SqlFormatter.Expr.Basic
import SqlFormatter.Grammar.ParseError
import SqlFormatter.NonemptyList

/-!
# SqlFormatter.Grammar.Expression

The grammar of expressions, over tokens without comments. A rule reads off the front of a list of
tokens what it stands for, with one token of lookahead, and gives the value and the tokens left.

* A rule that needs the rule for a nested expression takes it as an argument; `expression n` ties
  the knot for at most `n` levels of nesting. A level is an expression inside another construct,
  or the operand of a prefix operator.
* Binary operators are read tier by tier: `tier k` reads chains of the operators of the `k` tightest
  tiers, so what stands at a side of an operator binds at least as tight as it should.
* A loop reads at least one token each time. Where it cannot know that of the rule it repeats, it
  checks that the list has become shorter.
-/

namespace SqlFormatter.Grammar

/-- Reads a value off the front of a list of tokens, and gives the tokens left. -/
abbrev Rule (α : Type) := List Token → Except Refusal (α × List Token)

/-- Refuses the next token, for want of what is expected. -/
def unexpected {β : Type} (expected : Expectation) (ts : List Token) : Except Refusal β :=
  .error ⟨.unexpected expected, ts⟩

/-- Whether the next token is of the given kind. -/
def startsWith (kind : Kind) : List Token → Bool
  | [] => false
  | t :: _ => t.kind == kind

/-- Reads a token of the given kind and gives its position. -/
def token (kind : Kind) : Rule Nat
  | [] => unexpected (.token kind) []
  | t :: ts => if t.kind = kind then .ok (t.pos, ts) else unexpected (.token kind) (t :: ts)

/-- Reads a keyword and gives its position. -/
def keyword (k : Keyword) : Rule Nat := token (.keyword k)

/-- Reads an identifier. -/
def identifier : Rule Name
  | [] => unexpected (.token .ident) []
  | t :: ts =>
    if t.kind = .ident then .ok (⟨t.pos, t.text⟩, ts) else unexpected (.token .ident) (t :: ts)

section Lists

variable {α : Type}

/-- Reads any number of items with a comma before each. -/
def commaItems (item : Rule α) : Rule (List α)
  | [] => .ok ([], [])
  | t :: ts =>
    if t.kind = .comma then do
      let (x, rest) ← item ts
      if _ : rest.length ≤ ts.length then
        let (xs, rest) ← commaItems item rest
        return (x :: xs, rest)
      else return ([x], rest)
    else .ok ([], t :: ts)
termination_by ts => ts.length

/-- Reads one item or more, with commas between them. -/
def commaList (item : Rule α) : Rule (NonemptyList α) := fun ts => do
  let (x, rest) ← item ts
  let (xs, rest) ← commaItems item rest
  return (⟨x, xs⟩, rest)

end Lists

/-! ### Operators -/

/-- The tier of a binary operator: 1 for those that bind tightest. -/
def tierOf (op : BinaryOp) : Nat := 6 - op.precedence

/-- The number of tiers of binary operators. -/
def tierCount : Nat := 5

/-- Reads on after the operand `x` of a chain of operators of tier `k`. -/
def chainFrom (operand : Rule Expr) (k : Nat) (x : Expr) : Rule Expr
  | [] => .ok (x, [])
  | t :: ts =>
    match BinaryOp.ofKind? t.kind with
    | none => .ok (x, t :: ts)
    | some op =>
      if tierOf op = k then do
        let (y, rest) ← operand ts
        if _ : rest.length ≤ ts.length then chainFrom operand k (.binary x t.pos op y) rest
        else return (.binary x t.pos op y, rest)
      else .ok (x, t :: ts)
termination_by ts => ts.length
decreasing_by exact Nat.lt_succ_of_le ‹rest.length ≤ ts.length›

/-- Reads a chain of operands and operators of the `k` tightest tiers. -/
def tier (operand : Rule Expr) : Nat → Rule Expr
  | 0 => operand
  | k + 1 => fun ts => do
    let (x, rest) ← tier operand k ts
    chainFrom (tier operand k) (k + 1) x rest

/-- Reads what can be tested for null, and perhaps the test. -/
def nullTest (unary : Rule Expr) : Rule Expr := fun ts => do
  let (x, rest) ← unary ts
  match rest with
  | [] => return (x, [])
  | t :: rest =>
    if t.kind = .keyword .IS then do
      let (nullPos, rest) ← keyword .NULL rest
      return (.isNull x t.pos nullPos, rest)
    else return (x, t :: rest)

/-! ### Operands -/

/-- Reads what follows a name at the start of an operand: a dot and the name proper, an argument
list, or nothing. -/
def afterName (inner : Rule Expr) (name : Name) : Rule Expr
  | [] => .ok (.column none name, [])
  | t :: ts =>
    if t.kind = .dot then do
      let (column, rest) ← identifier ts
      return (.column (some name) column, rest)
    else if t.kind = .leftParen then
      match ts with
      | [] => unexpected .functionArgument []
      | u :: us =>
        if u.kind = .rightParen then .ok (.call name t.pos [] u.pos, us)
        else do
          let (args, rest) ← commaList argument (u :: us)
          let (rparen, rest) ← token .rightParen rest
          return (.call name t.pos args.toList rparen, rest)
    else .ok (.column none name, t :: ts)
where
  /-- Reads an argument of a function. -/
  argument : Rule Expr
    | [] => unexpected .functionArgument []
    | t :: ts => inner (t :: ts)

/-- Reads any number of arms of a choice. -/
def arms (inner : Rule Expr) : Rule (List Arm)
  | [] => .ok ([], [])
  | t :: ts =>
    if t.kind = .keyword .WHEN then do
      let (cond, rest) ← inner ts
      let (thenPos, rest) ← keyword .THEN rest
      let (result, rest) ← inner rest
      let arm : Arm := ⟨t.pos, cond, thenPos, result⟩
      if _ : rest.length ≤ ts.length then
        let (others, rest) ← arms inner rest
        return (arm :: others, rest)
      else return ([arm], rest)
    else .ok ([], t :: ts)
termination_by ts => ts.length

/-- Whether the next token starts the part of a choice after its key. -/
def atCaseBranch (ts : List Token) : Bool :=
  startsWith (.keyword .WHEN) ts || startsWith (.keyword .ELSE) ts ||
    startsWith (.keyword .END) ts

/-- Reads the key of a choice, if it has one. -/
def caseKey (inner : Rule Expr) : Rule (Option Expr) := fun ts =>
  if atCaseBranch ts then .ok (none, ts)
  else do
    let (key, rest) ← inner ts
    return (some key, rest)

/-- Reads the last part of a choice, if it has one. -/
def otherwise (inner : Rule Expr) : Rule (Option Otherwise)
  | [] => unexpected .caseBranch []
  | t :: ts =>
    if t.kind = .keyword .ELSE then do
      let (result, rest) ← inner ts
      return (some ⟨t.pos, result⟩, rest)
    else if t.kind = .keyword .END then .ok (none, t :: ts)
    else unexpected .caseBranch (t :: ts)

/-- Reads a choice, of which CASE at `pos` has been read. -/
def afterCase (inner : Rule Expr) (pos : Nat) : Rule Expr := fun ts => do
  let (key, rest) ← caseKey inner ts
  let (branches, rest) ← arms inner rest
  match branches with
  | [] => unexpected .caseBranch rest
  | first :: others => do
    let (last, rest) ← otherwise inner rest
    let (endPos, rest) ← keyword .END rest
    return (.case pos key first others last endPos, rest)

/-- Reads an expression in parentheses, of which the left one at `lparen` has been read. -/
def afterParen (inner : Rule Expr) (lparen : Nat) : Rule Expr := fun ts =>
  if startsWith (.keyword .SELECT) ts then .error ⟨.unsupported .subquery lparen, ts⟩
  else do
    let (x, rest) ← inner ts
    let (rparen, rest) ← token .rightParen rest
    return (.paren lparen x rparen, rest)

/-- Reads an operand without operators around it. -/
def primary (inner : Rule Expr) : Rule Expr
  | [] => unexpected .expression []
  | t :: ts =>
    match t.kind with
    | .ident => afterName inner ⟨t.pos, t.text⟩ ts
    | .integer => .ok (.literal t.pos .integer t.text, ts)
    | .real => .ok (.literal t.pos .real t.text, ts)
    | .string => .ok (.literal t.pos .string t.text, ts)
    | .star => .ok (.wildcard t.pos, ts)
    | .keyword .CASE => afterCase inner t.pos ts
    | .leftParen => afterParen inner t.pos ts
    | _ => unexpected .expression (t :: ts)

/-- Reads an operand with a prefix operator, whose own operand `signed` reads, or without one. -/
def unaryWith (signed inner : Rule Expr) : Rule Expr
  | [] => unexpected .expression []
  | t :: ts =>
    match UnaryOp.ofKind? t.kind with
    | some op => do
      let (x, rest) ← signed ts
      return (.unary t.pos op x, rest)
    | none => primary inner (t :: ts)

/-! ### Nesting -/

/-- The number of levels that expressions may be nested. -/
def maxNesting : Nat := 64

/-- The rule for what is nested too deep. -/
def tooDeep : Rule Expr := unexpected .shallowerNesting

/-- Reads operators and operands, whose prefix operators and operands `unary` reads. -/
def operators (unary : Rule Expr) : Rule Expr := tier (nullTest unary) tierCount

/-- Reads an operand with its prefix operators; `n` more levels may be entered. -/
def unary : Nat → Rule Expr
  | 0 => unaryWith tooDeep tooDeep
  | n + 1 => unaryWith (unary n) (operators (unary n))

/-- Reads an expression; `n` more levels may be entered, the one for itself included. -/
def expression : Nat → Rule Expr
  | 0 => tooDeep
  | n + 1 => operators (unary n)

end SqlFormatter.Grammar
