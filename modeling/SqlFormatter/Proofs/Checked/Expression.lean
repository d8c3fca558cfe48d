import SqlFormatter.Proofs.Checked.Source
import SqlFormatter.Proofs.Grammar.Lookahead

/-!
# SqlFormatter.Proofs.Checked.Expression

The grammar of expressions, with checks. A run counts the levels of nesting that it is in (`Run`),
where the rules of the grammar are told how many more they may enter. A level is left whatever came
of what was inside (`nested`).

* `Gives`: a run has an outcome, and leaves the count as it was. Each rule with checks gives what
  the rule of the grammar does, on all tokens (`Agrees`); there is one lemma for each.
* In level `d` a rule with checks agrees with the one that may enter `maxNesting - d` more levels
  (`unary_agrees`).
-/

namespace SqlFormatter.Checked

/-- A run of rules that counts the levels of nesting. A refusal has a count as well. -/
abbrev Run (α : Type) := ExceptT Refusal (StateT Nat (Except Panic)) α

/-- A rule of the grammar, with checks. -/
abbrev Rule (α : Type) := List Token → Run (α × List Token)

/-! ### Runs and what they give -/

section Gives

variable {α β : Type}

/-- In this level the run has the outcome, and does not change the count. -/
def Gives (run : Run α) (outcome : Except Refusal α) (depth : Nat) : Prop :=
  run.run.run depth = .ok (outcome, depth)

/-- In this level the rule with checks does on all tokens what the other one does. -/
def Agrees (checked : Rule α) (rule : Grammar.Rule α) (depth : Nat) : Prop :=
  ∀ ts, Gives (checked ts) (rule ts) depth

variable {depth : Nat}

/-- A run that gives something else than what the rule goes on with. -/
theorem Gives.bind_map {γ : Type} {run : Run α} {outcome : Except Refusal γ} {f : γ → α}
    {next : α → Run β} {next' : γ → Except Refusal β} (hrun : Gives run (f <$> outcome) depth)
    (hnext : ∀ c, outcome = .ok c → Gives (next (f c)) (next' c) depth) :
    Gives (run >>= next) (outcome >>= next') depth := by
  change (run.run.run depth >>= fun p => _) = _
  rw [show run.run.run depth = _ from hrun, ok_bind]
  cases outcome with
  | error r => rfl
  | ok c => exact hnext c rfl

theorem Gives.bind {run : Run α} {outcome : Except Refusal α} {next : α → Run β}
    {next' : α → Except Refusal β} (hrun : Gives run outcome depth)
    (hnext : ∀ a, outcome = .ok a → Gives (next a) (next' a) depth) :
    Gives (run >>= next) (outcome >>= next') depth :=
  Gives.bind_map (f := id) (by rwa [id_map]) hnext

theorem Gives.pure (a : α) : Gives (Pure.pure a) (.ok a) depth := rfl

theorem Gives.lift (outcome : Except Refusal α) : Gives (liftM outcome) outcome depth := rfl

/-- A check that does not fail. -/
theorem Gives.check {outcome : Except Panic α} {a : α} (h : outcome = .ok a) :
    Gives (liftM outcome) (.ok a) depth := by
  subst h
  rfl

end Gives

/-- As `Grammar.unexpected`. -/
def unexpected {α : Type} (expected : Expectation) (ts : List Token) : Run α :=
  liftM (Grammar.unexpected (β := α) expected ts)

/-- A run that does not come to an end. -/
def endless {α : Type} : Run α := fun _ => .error .endless

/-- Enters a level for the rule, if there may be one more. -/
def nested {α : Type} (rule : Rule α) : Rule α := fun ts depth =>
  if Grammar.maxNesting ≤ depth then .ok (Grammar.unexpected .shallowerNesting ts, depth)
  else do
    match ← rule ts (depth + 1) with
    | (_, 0) => .error .underflow
    | (outcome, depth + 1) => .ok (outcome, depth)

theorem nested_agrees {α : Type} {checked : Rule α} {rule : Grammar.Rule α} {depth : Nat}
    (hdepth : depth < Grammar.maxNesting) (h : Agrees checked rule (depth + 1)) :
    Agrees (nested checked) rule depth := by
  intro ts
  have hrun : checked ts (depth + 1) = .ok (rule ts, depth + 1) := h ts
  change nested checked ts depth = _
  rw [nested, if_neg (Nat.not_le.2 hdepth), hrun]
  rfl

/-- In the last level none may be entered. -/
theorem nested_agrees_tooDeep {checked : Rule Expr} :
    Agrees (nested checked) Grammar.tooDeep Grammar.maxNesting := fun _ => rfl

/-! ### Lists -/

section Lists

variable {α : Type}

/-- As `Grammar.commaItems`, with checks. -/
def commaItems (item : Rule α) : Rule (List α)
  | [] => return ([], [])
  | t :: ts =>
    if t.kind = .comma then do
      let (x, rest) ← item ts
      if _ : rest.length ≤ ts.length then
        let (xs, rest) ← commaItems item rest
        return (x :: xs, rest)
      else endless
    else return ([], t :: ts)
termination_by ts => ts.length

/-- As `Grammar.commaList`, with checks; whether there is an item is left to be checked. -/
def commaList (item : Rule α) : Rule (List α) := fun ts => do
  let (x, rest) ← item ts
  let (xs, rest) ← commaItems item rest
  return (x :: xs, rest)

variable {checked : Rule α} {item : Grammar.Rule α} {depth : Nat}

theorem commaItems_agrees (hitem : Agrees checked item depth) (hsees : Grammar.Sees item) :
    Agrees (commaItems checked) (Grammar.commaItems item) depth := by
  intro ts
  induction hn : ts.length using Nat.strongRecOn generalizing ts with
  | ind n ih =>
    cases ts with
    | nil =>
      rw [commaItems, Grammar.commaItems]
      exact .pure _
    | cons t ts =>
      rw [commaItems]
      by_cases ht : t.kind = .comma
      · rw [if_pos ht, Grammar.commaItems_cons hsees ht]
        refine (hitem ts).bind fun p hrun => ?_
        have hlength : p.2.length ≤ ts.length := hsees.length_le hrun
        have hlt : p.2.length < n := hn ▸ Nat.lt_succ_of_le hlength
        dsimp only
        rw [dif_pos hlength]
        exact (ih p.2.length hlt p.2 rfl).bind fun q _ => .pure _
      · rw [if_neg ht, Grammar.commaItems, if_neg ht]
        exact .pure _

/-- The items that are read are those of a list that is not empty. -/
theorem commaList_gives (hitem : Agrees checked item depth) (hsees : Grammar.Sees item)
    (ts : List Token) :
    Gives (commaList checked ts)
      ((fun p => (p.1.toList, p.2)) <$> Grammar.commaList item ts) depth := by
  unfold Grammar.commaList
  rw [map_bind]
  refine (hitem ts).bind fun p _ => ?_
  dsimp only
  rw [map_bind]
  exact (commaItems_agrees hitem hsees p.2).bind fun q _ => .pure _

end Lists

/-! ### Operators -/

/-- As `Grammar.chainFrom`, with checks. -/
def chainFrom (operand : Rule Expr) (k : Nat) (x : Expr) : Rule Expr
  | [] => return (x, [])
  | t :: ts =>
    match BinaryOp.ofKind? t.kind with
    | none => return (x, t :: ts)
    | some op =>
      if Grammar.tierOf op = k then do
        let (y, rest) ← operand ts
        if _ : rest.length ≤ ts.length then chainFrom operand k (.binary x t.pos op y) rest
        else endless
      else return (x, t :: ts)
termination_by ts => ts.length
decreasing_by exact Nat.lt_succ_of_le ‹rest.length ≤ ts.length›

/-- As `Grammar.tier`, with checks. -/
def tier (operand : Rule Expr) : Nat → Rule Expr
  | 0 => operand
  | k + 1 => fun ts => do
    let (x, rest) ← tier operand k ts
    chainFrom (tier operand k) (k + 1) x rest

/-- As `Grammar.nullTest`, with checks. -/
def nullTest (unary : Rule Expr) : Rule Expr := fun ts => do
  let (x, rest) ← unary ts
  match rest with
  | [] => return (x, [])
  | t :: rest =>
    if t.kind = .keyword .IS then do
      let (nullPos, rest) ← Grammar.keyword .NULL rest
      return (.isNull x t.pos nullPos, rest)
    else return (x, t :: rest)

/-- As `Grammar.operators`, with checks. -/
def operators (unary : Rule Expr) : Rule Expr := tier (nullTest unary) Grammar.tierCount

section Operators

variable {checked : Rule Expr} {rule : Grammar.Rule Expr} {depth k : Nat}

theorem chainFrom_agrees (h : Agrees checked rule depth) (hsees : Grammar.Sees rule) (x : Expr) :
    Agrees (chainFrom checked k x) (Grammar.chainFrom rule k x) depth := by
  intro ts
  induction hn : ts.length using Nat.strongRecOn generalizing ts x with
  | ind n ih =>
    cases ts with
    | nil =>
      rw [chainFrom, Grammar.chainFrom]
      exact .pure _
    | cons t ts =>
      rw [chainFrom]
      cases hop : BinaryOp.ofKind? t.kind with
      | none =>
        rw [Grammar.chainFrom]
        simp only [hop]
        exact .pure _
      | some op =>
        dsimp only
        by_cases htier : Grammar.tierOf op = k
        · rw [if_pos htier, Grammar.chainFrom_cons hsees hop htier]
          refine (h ts).bind fun p hrun => ?_
          have hlength : p.2.length ≤ ts.length := hsees.length_le hrun
          rw [dif_pos hlength]
          exact ih p.2.length (hn ▸ Nat.lt_succ_of_le hlength) _ p.2 rfl
        · rw [if_neg htier, Grammar.chainFrom]
          simp only [hop]
          rw [if_neg htier]
          exact .pure _

theorem tier_agrees (h : Agrees checked rule depth) (hsees : Grammar.Sees rule) (k : Nat) :
    Agrees (tier checked k) (Grammar.tier rule k) depth := by
  induction k with
  | zero => exact h
  | succ k ih =>
    exact fun ts => (ih ts).bind fun p _ => chainFrom_agrees ih (Grammar.tier_sees hsees k) p.1 p.2

theorem nullTest_agrees (h : Agrees checked rule depth) :
    Agrees (nullTest checked) (Grammar.nullTest rule) depth := by
  refine fun ts => (h ts).bind fun p _ => ?_
  obtain ⟨x, us⟩ := p
  cases us with
  | nil => exact .pure _
  | cons t us =>
    dsimp only
    split
    · exact (Gives.lift (Grammar.keyword .NULL us)).bind fun _ _ => .pure _
    · exact .pure _

theorem operators_agrees (h : Agrees checked rule depth) (hsees : Grammar.Sees rule) :
    Agrees (operators checked) (Grammar.operators rule) depth :=
  tier_agrees (nullTest_agrees h) (Grammar.nullTest_sees hsees) Grammar.tierCount

end Operators

/-! ### Operands -/

/-- As `Grammar.afterName.argument`, with checks. -/
def argument (inner : Rule Expr) : Rule Expr
  | [] => unexpected .functionArgument []
  | t :: ts => inner (t :: ts)

/-- As `Grammar.afterName`, with checks. -/
def afterName (inner : Rule Expr) (name : Name) : Rule Expr
  | [] => return (.column none name, [])
  | t :: ts =>
    if t.kind = .dot then do
      let (column, rest) ← Grammar.identifier ts
      return (.column (some name) column, rest)
    else if t.kind = .leftParen then
      match ts with
      | [] => unexpected .functionArgument []
      | u :: us =>
        if u.kind = .rightParen then return (.call name t.pos [] u.pos, us)
        else do
          let (args, rest) ← commaList (argument inner) (u :: us)
          let (rparen, rest) ← Grammar.token .rightParen rest
          return (.call name t.pos args rparen, rest)
    else return (.column none name, t :: ts)

/-- As `Grammar.arms`, with checks. -/
def arms (inner : Rule Expr) : Rule (List Arm)
  | [] => return ([], [])
  | t :: ts =>
    if t.kind = .keyword .WHEN then do
      let (cond, rest) ← inner ts
      let (thenPos, rest) ← Grammar.keyword .THEN rest
      let (result, rest) ← inner rest
      if _ : rest.length ≤ ts.length then
        let (others, rest) ← arms inner rest
        return ((⟨t.pos, cond, thenPos, result⟩ : Arm) :: others, rest)
      else endless
    else return ([], t :: ts)
termination_by ts => ts.length

/-- As `Grammar.caseKey`, with checks. -/
def caseKey (inner : Rule Expr) : Rule (Option Expr) := fun ts =>
  if Grammar.atCaseBranch ts then return (none, ts)
  else do
    let (key, rest) ← inner ts
    return (some key, rest)

/-- As `Grammar.otherwise`, with checks. -/
def otherwise (inner : Rule Expr) : Rule (Option Otherwise)
  | [] => unexpected .caseBranch []
  | t :: ts =>
    if t.kind = .keyword .ELSE then do
      let (result, rest) ← inner ts
      return (some ⟨t.pos, result⟩, rest)
    else if t.kind = .keyword .END then return (none, t :: ts)
    else unexpected .caseBranch (t :: ts)

/-- As `Grammar.afterCase`, with checks: a choice is made of any list of arms. -/
def afterCase (inner : Rule Expr) (pos : Nat) : Rule Expr := fun ts => do
  let (key, rest) ← caseKey inner ts
  let (branches, rest) ← arms inner rest
  if branches.isEmpty then unexpected .caseBranch rest
  else do
    let (last, rest) ← otherwise inner rest
    let (endPos, rest) ← Grammar.keyword .END rest
    let choice ← assert (Expr.caseOf pos key branches last endPos)
    return (choice, rest)

/-- As `Grammar.afterParen`, with checks. -/
def afterParen (inner : Rule Expr) (lparen : Nat) : Rule Expr := fun ts =>
  if Grammar.startsWith (.keyword .SELECT) ts then
    liftM (.error ⟨.unsupported .subquery lparen, ts⟩ : Except Refusal (Expr × List Token))
  else do
    let (x, rest) ← inner ts
    let (rparen, rest) ← Grammar.token .rightParen rest
    return (.paren lparen x rparen, rest)

/-- As `Grammar.primary`, with checks. -/
def primary (inner : Rule Expr) : Rule Expr
  | [] => unexpected .expression []
  | t :: ts =>
    match t.kind with
    | .ident => afterName inner ⟨t.pos, t.text⟩ ts
    | .integer => return (.literal t.pos .integer t.text, ts)
    | .real => return (.literal t.pos .real t.text, ts)
    | .string => return (.literal t.pos .string t.text, ts)
    | .star => return (.wildcard t.pos, ts)
    | .keyword .CASE => afterCase inner t.pos ts
    | .leftParen => afterParen inner t.pos ts
    | _ => unexpected .expression (t :: ts)

/-- As `Grammar.unaryWith`, with checks. -/
def unaryWith (signed inner : Rule Expr) : Rule Expr
  | [] => unexpected .expression []
  | t :: ts =>
    match UnaryOp.ofKind? t.kind with
    | some op => do
      let (x, rest) ← signed ts
      return (.unary t.pos op x, rest)
    | none => primary inner (t :: ts)

section Operands

variable {checked : Rule Expr} {inner : Grammar.Rule Expr} {depth : Nat}

theorem Gives.unexpected {α : Type} (expected : Expectation) (ts : List Token) :
    Gives (unexpected (α := α) expected ts) (Grammar.unexpected expected ts) depth := rfl

theorem argument_agrees (h : Agrees checked inner depth) :
    Agrees (argument checked) (Grammar.afterName.argument inner) depth := by
  intro ts
  cases ts with
  | nil => exact .unexpected ..
  | cons t ts => exact h (t :: ts)

theorem afterName_agrees (h : Agrees checked inner depth) (hsees : Grammar.Sees inner)
    (name : Name) : Agrees (afterName checked name) (Grammar.afterName inner name) depth := by
  intro ts
  cases ts with
  | nil => exact .pure _
  | cons t ts =>
    unfold afterName
    dsimp only
    by_cases hdot : t.kind = .dot
    · rw [if_pos hdot, Grammar.afterName_dot hdot]
      exact (Gives.lift (Grammar.identifier ts)).bind fun _ _ => .pure _
    rw [if_neg hdot]
    by_cases hlparen : t.kind = .leftParen
    · rw [if_pos hlparen]
      cases ts with
      | nil =>
        rw [Grammar.afterName_arguments_nil hlparen]
        exact .unexpected ..
      | cons u us =>
        dsimp only
        by_cases hrparen : u.kind = .rightParen
        · rw [if_pos hrparen, Grammar.afterName_no_arguments hlparen hrparen]
          exact .pure _
        · rw [if_neg hrparen, Grammar.afterName_arguments hlparen hrparen]
          exact (commaList_gives (argument_agrees h) (Grammar.argument_sees hsees) _).bind_map
            fun p _ => (Gives.lift (Grammar.token .rightParen p.2)).bind fun _ _ => .pure _
    · rw [if_neg hlparen, Grammar.afterName_bare hdot hlparen]
      exact .pure _

theorem arms_agrees (h : Agrees checked inner depth) (hsees : Grammar.Sees inner) :
    Agrees (arms checked) (Grammar.arms inner) depth := by
  intro ts
  induction hn : ts.length using Nat.strongRecOn generalizing ts with
  | ind n ih =>
    cases ts with
    | nil =>
      rw [arms, Grammar.arms]
      exact .pure _
    | cons t ts =>
      rw [arms]
      by_cases ht : t.kind = .keyword .WHEN
      · rw [if_pos ht, Grammar.arms_cons hsees ht]
        refine (h ts).bind fun cond hcond =>
          (Gives.lift (Grammar.keyword .THEN cond.2)).bind fun p hthen =>
            (h p.2).bind fun result hresult => ?_
        have hlength : result.2.length ≤ ts.length :=
          Grammar.arm_length_le hsees hcond hthen hresult
        have hlt : result.2.length < n := hn ▸ Nat.lt_succ_of_le hlength
        dsimp only
        rw [dif_pos hlength]
        exact (ih result.2.length hlt result.2 rfl).bind fun _ _ => .pure _
      · rw [if_neg ht, Grammar.arms, if_neg ht]
        exact .pure _

theorem caseKey_agrees (h : Agrees checked inner depth) :
    Agrees (caseKey checked) (Grammar.caseKey inner) depth := by
  intro ts
  unfold caseKey Grammar.caseKey
  split
  · exact .pure _
  · exact (h ts).bind fun _ _ => .pure _

theorem otherwise_agrees (h : Agrees checked inner depth) :
    Agrees (otherwise checked) (Grammar.otherwise inner) depth := by
  intro ts
  cases ts with
  | nil => exact .unexpected ..
  | cons t ts =>
    unfold otherwise Grammar.otherwise
    dsimp only
    split
    · exact (h ts).bind fun _ _ => .pure _
    · split
      · exact .pure _
      · exact .unexpected ..

/-- Where a choice is made, there is an arm. -/
theorem afterCase_agrees (h : Agrees checked inner depth) (hsees : Grammar.Sees inner)
    (pos : Nat) : Agrees (afterCase checked pos) (Grammar.afterCase inner pos) depth := by
  refine fun ts => (caseKey_agrees h ts).bind fun key _ =>
    (arms_agrees h hsees key.2).bind fun p _ => ?_
  obtain ⟨branches, us⟩ := p
  cases branches with
  | nil => exact .unexpected ..
  | cons first others =>
    exact (otherwise_agrees h us).bind fun p _ => (Gives.lift (Grammar.keyword .END p.2)).bind
      fun q _ => (Gives.check rfl).bind fun _ _ => .pure _

theorem afterParen_agrees (h : Agrees checked inner depth) (lparen : Nat) :
    Agrees (afterParen checked lparen) (Grammar.afterParen inner lparen) depth := by
  intro ts
  unfold afterParen Grammar.afterParen
  split
  · exact .lift _
  · exact (h ts).bind fun p _ => (Gives.lift (Grammar.token .rightParen p.2)).bind
      fun _ _ => .pure _

theorem primary_agrees (h : Agrees checked inner depth) (hsees : Grammar.Sees inner) :
    Agrees (primary checked) (Grammar.primary inner) depth := by
  intro ts
  cases ts with
  | nil => exact .unexpected ..
  | cons t ts =>
    unfold primary Grammar.primary
    dsimp only
    cases t.kind with
    | ident => exact afterName_agrees h hsees _ ts
    | leftParen => exact afterParen_agrees h _ ts
    | keyword k =>
      cases k with
      | CASE => exact afterCase_agrees h hsees _ ts
      | _ => exact .unexpected ..
    | integer | real | string | star => exact .pure _
    | _ => exact .unexpected ..

theorem unaryWith_agrees {signed : Rule Expr} {rule : Grammar.Rule Expr}
    (hsigned : Agrees signed rule depth) (h : Agrees checked inner depth)
    (hsees : Grammar.Sees inner) :
    Agrees (unaryWith signed checked) (Grammar.unaryWith rule inner) depth := by
  intro ts
  cases ts with
  | nil => exact .unexpected ..
  | cons t ts =>
    unfold unaryWith Grammar.unaryWith
    dsimp only
    cases UnaryOp.ofKind? t.kind with
    | some op => exact (hsigned ts).bind fun _ _ => .pure _
    | none => exact primary_agrees h hsees _

end Operands

/-! ### Nesting -/

/-- As `Grammar.unary`, with checks and fewer than `fuel` levels. Where the levels end is left to
`nested`. -/
def unary : Nat → Rule Expr
  | 0 => fun _ => endless
  | fuel + 1 => unaryWith (nested (unary fuel)) (nested (operators (unary fuel)))

/-- As `Grammar.expression`, with checks. -/
def expression : Rule Expr := nested (operators (unary Grammar.maxNesting))

/-- In a level there may be as many more as there are between it and the last one. -/
theorem unary_agrees {n depth : Nat} (h : depth + n = Grammar.maxNesting) :
    Agrees (unary (n + 1)) (Grammar.unary n) depth := by
  induction n generalizing depth with
  | zero =>
    obtain rfl : depth = Grammar.maxNesting := h
    exact unaryWith_agrees nested_agrees_tooDeep nested_agrees_tooDeep Grammar.tooDeep_sees
  | succ n ih =>
    have hunary : Agrees (unary (n + 1)) (Grammar.unary n) (depth + 1) := ih (by omega)
    have hsees := Grammar.unary_sees n
    exact unaryWith_agrees (nested_agrees (by omega) hunary)
      (nested_agrees (by omega) (operators_agrees hunary hsees)) (Grammar.operators_sees hsees)

/-- No check of an expression fails, and all levels that are entered are left. -/
theorem expression_agrees : Agrees expression (Grammar.expression Grammar.maxNesting) 0 :=
  nested_agrees (by decide) (operators_agrees (unary_agrees rfl) (Grammar.unary_sees _))

end SqlFormatter.Checked
