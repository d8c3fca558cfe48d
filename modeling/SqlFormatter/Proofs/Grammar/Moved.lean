import SqlFormatter.Proofs.Grammar.Lookahead
import SqlFormatter.Proofs.Statement.Moved

/-!
# SqlFormatter.Proofs.Grammar.Moved

No rule of the grammar looks at positions: it does the same to tokens that have been moved, and what
it gives is moved with them (`Follows`). There is one lemma for each rule, and the main result is
`sentence_moved`.
-/

namespace SqlFormatter.Grammar

variable {f : Nat → Nat}

/-! ### Rules under a move -/

section Follows

variable {α β : Type} {g : α → α} {g' : β → β} {rule rule' : Rule α}

/-- The outcome of a rule, moved by `f`; its value is moved by `g`. -/
def moveOutcome (f : Nat → Nat) (g : α → α) :
    Except Refusal (α × List Token) → Except Refusal (α × List Token)
  | .ok (a, rest) => .ok (g a, rest.map (Token.moved f))
  | .error r => .error (r.moved f)

/-- On the moved tokens `ts` the rule `rule'` does what `rule` does on `ts`. -/
def FollowsAt (f : Nat → Nat) (g : α → α) (rule rule' : Rule α) (ts : List Token) : Prop :=
  rule' (ts.map (Token.moved f)) = moveOutcome f g (rule ts)

/-- On moved tokens the rule `rule'` does what `rule` does on the tokens themselves. -/
def Follows (f : Nat → Nat) (g : α → α) (rule rule' : Rule α) : Prop :=
  ∀ ts, FollowsAt f g rule rule' ts

/-- One rule after another. -/
theorem FollowsAt.bind {next next' : α × List Token → Except Refusal (β × List Token)}
    {ts : List Token} (hrule : FollowsAt f g rule rule' ts)
    (hnext : ∀ a us, rule ts = .ok (a, us) →
      FollowsAt f g' (fun vs => next (a, vs)) (fun vs => next' (g a, vs)) us) :
    FollowsAt f g' (fun us => rule us >>= next) (fun us => rule' us >>= next') ts := by
  unfold FollowsAt at hrule ⊢
  dsimp only
  rw [hrule]
  cases hrun : rule ts with
  | error r => rfl
  | ok p => exact hnext p.1 p.2 hrun

theorem Follows.bind {next next' : α × List Token → Except Refusal (β × List Token)}
    (hrule : Follows f g rule rule')
    (hnext : ∀ a, Follows f g' (fun vs => next (a, vs)) (fun vs => next' (g a, vs))) :
    Follows f g' (fun us => rule us >>= next) (fun us => rule' us >>= next') :=
  fun ts => (hrule ts).bind fun a us _ => hnext a us

/-- A rule that reads the next token and then goes on as another one. -/
theorem FollowsAt.cons {t : Token} {ts : List Token} {read read' : Rule α}
    (h : ∀ us, rule (t :: us) = read us) (h' : ∀ us, rule' (t.moved f :: us) = read' us)
    (hread : FollowsAt f g read read' ts) : FollowsAt f g rule rule' (t :: ts) := by
  rw [FollowsAt, List.map_cons, h', h]
  exact hread

/-- A rule that leaves the next token. -/
theorem FollowsAt.keep {t : Token} {a : α} (h : ∀ us, rule (t :: us) = .ok (a, t :: us))
    (h' : ∀ us, rule' (t.moved f :: us) = .ok (g a, t.moved f :: us)) (ts : List Token) :
    FollowsAt f g rule rule' (t :: ts) := by
  rw [FollowsAt, List.map_cons, h', h]
  rfl

theorem FollowsAt.ok (a : α) (ts : List Token) :
    FollowsAt f g (fun us => .ok (a, us)) (fun us => .ok (g a, us)) ts := rfl

/-- A rule that refuses the next token. -/
theorem FollowsAt.stuck {t : Token} {expected : Expectation}
    (h : ∀ us, rule (t :: us) = unexpected expected (t :: us))
    (h' : ∀ us, rule' (t.moved f :: us) = unexpected expected (t.moved f :: us))
    (ts : List Token) : FollowsAt f g rule rule' (t :: ts) := by
  rw [FollowsAt, List.map_cons, h', h]
  rfl

end Follows

/-! ### Tokens and lists -/

theorem startsWith_moved (k : Kind) (ts : List Token) :
    startsWith k (ts.map (Token.moved f)) = startsWith k ts := by
  cases ts <;> rfl

theorem token_moved (k : Kind) : Follows f f (token k) (token k) := by
  intro ts
  cases ts with
  | nil => rfl
  | cons t ts =>
    by_cases h : t.kind = k
    · exact .cons (fun _ => if_pos h) (fun _ => if_pos h) (.ok t.pos ts)
    · exact .stuck (fun _ => if_neg h) (fun _ => if_neg h) ts

theorem keyword_moved (k : Keyword) : Follows f f (keyword k) (keyword k) := token_moved _

theorem identifier_moved : Follows f (Name.moved f) identifier identifier := by
  intro ts
  cases ts with
  | nil => rfl
  | cons t ts =>
    by_cases h : t.kind = .ident
    · exact .cons (fun _ => if_pos h) (fun _ => if_pos h) (.ok (⟨t.pos, t.text⟩ : Name) ts)
    · exact .stuck (fun _ => if_neg h) (fun _ => if_neg h) ts

section Lists

variable {α : Type} {g : α → α} {item : Rule α}

theorem commaItems_moved (hitem : Follows f g item item) (hsees : Sees item) :
    Follows f (List.map g) (commaItems item) (commaItems item) := by
  intro ts
  induction hn : ts.length using Nat.strongRecOn generalizing ts with
  | ind n ih =>
    cases ts with
    | nil =>
      rw [FollowsAt, List.map_nil, commaItems]
      rfl
    | cons t ts =>
      by_cases ht : t.kind = .comma
      · refine .cons (commaItems_cons hsees ht) (commaItems_cons hsees ht)
          ((hitem ts).bind fun x us hrun => ?_)
        have hlt : us.length < n := hn ▸ Nat.lt_succ_of_le (hsees.length_le hrun)
        exact (ih us.length hlt us rfl).bind fun xs vs _ => .ok (x :: xs) vs
      · have hnone : ∀ u : Token, u.kind ≠ .comma → ∀ us,
            commaItems item (u :: us) = .ok ([], u :: us) := by
          intro u hu us
          rw [commaItems, if_neg hu]
        exact .keep (hnone t ht) (hnone (t.moved f) ht) ts

theorem commaList_moved (hitem : Follows f g item item) (hsees : Sees item) :
    Follows f (NonemptyList.map g) (commaList item) (commaList item) :=
  hitem.bind fun x => (commaItems_moved hitem hsees).bind fun xs ts =>
    .ok (⟨x, xs⟩ : NonemptyList α) ts

end Lists

/-! ### Operators -/

section Operators

variable {operand : Rule Expr} {k : Nat}

theorem chainFrom_moved (hoperand : Follows f (Expr.moved f) operand operand)
    (hsees : Sees operand) (x : Expr) :
    Follows f (Expr.moved f) (chainFrom operand k x) (chainFrom operand k (x.moved f)) := by
  intro ts
  induction hn : ts.length using Nat.strongRecOn generalizing ts x with
  | ind n ih =>
    cases ts with
    | nil =>
      rw [FollowsAt, List.map_nil, chainFrom, chainFrom]
      rfl
    | cons t ts =>
      -- Moved tokens have the same kinds, so the chain ends at the same place.
      have hstop : (∀ (y : Expr) (u : Token) us, u.kind = t.kind →
          chainFrom operand k y (u :: us) = .ok (y, u :: us)) →
          FollowsAt f (Expr.moved f) (chainFrom operand k x) (chainFrom operand k (x.moved f))
            (t :: ts) :=
        fun h => .keep (fun us => h x t us rfl) (fun us => h (x.moved f) (t.moved f) us rfl) ts
      cases hop : BinaryOp.ofKind? t.kind with
      | none =>
        refine hstop fun y u us hu => ?_
        rw [chainFrom]
        simp only [hu, hop]
      | some op =>
        by_cases htier : tierOf op = k
        · refine .cons (chainFrom_cons hsees hop htier x)
            (chainFrom_cons (t := t.moved f) hsees hop htier (x.moved f))
            ((hoperand ts).bind fun y us hrun => ?_)
          have hlt : us.length < n := hn ▸ Nat.lt_succ_of_le (hsees.length_le hrun)
          exact ih us.length hlt (.binary x t.pos op y) us rfl
        · refine hstop fun y u us hu => ?_
          rw [chainFrom]
          simp only [hu, hop]
          rw [if_neg htier]

theorem tier_moved (hoperand : Follows f (Expr.moved f) operand operand) (hsees : Sees operand)
    (k : Nat) : Follows f (Expr.moved f) (tier operand k) (tier operand k) := by
  induction k with
  | zero => exact hoperand
  | succ k ih => exact ih.bind fun x => chainFrom_moved ih (tier_sees hsees k) x

theorem nullTest_moved {unary : Rule Expr} (hunary : Follows f (Expr.moved f) unary unary) :
    Follows f (Expr.moved f) (nullTest unary) (nullTest unary) := by
  refine hunary.bind fun x us => ?_
  cases us with
  | nil => rfl
  | cons t us =>
    by_cases ht : t.kind = .keyword .IS
    · exact .cons (fun _ => if_pos ht) (fun _ => if_pos ht)
        ((keyword_moved .NULL us).bind fun q vs _ => .ok (Expr.isNull x t.pos q) vs)
    · exact .keep (fun _ => if_neg ht) (fun _ => if_neg ht) us

theorem operators_moved {unary : Rule Expr} (hunary : Follows f (Expr.moved f) unary unary)
    (hsees : Sees unary) : Follows f (Expr.moved f) (operators unary) (operators unary) :=
  tier_moved (nullTest_moved hunary) (nullTest_sees hsees) tierCount

end Operators

/-! ### Operands -/

section Operands

variable {inner : Rule Expr}

theorem argument_moved (hinner : Follows f (Expr.moved f) inner inner) :
    Follows f (Expr.moved f) (afterName.argument inner) (afterName.argument inner) := by
  intro ts
  cases ts with
  | nil => rfl
  | cons t ts => exact hinner (t :: ts)

theorem afterName_moved (hinner : Follows f (Expr.moved f) inner inner) (hsees : Sees inner)
    (name : Name) :
    Follows f (Expr.moved f) (afterName inner name) (afterName inner (name.moved f)) := by
  intro ts
  cases ts with
  | nil => rfl
  | cons t ts =>
    by_cases hdot : t.kind = .dot
    · exact .cons (afterName_dot hdot) (afterName_dot hdot)
        ((identifier_moved ts).bind fun n us _ => .ok (Expr.column (some name) n) us)
    by_cases hlparen : t.kind = .leftParen
    · cases ts with
      | nil =>
        rw [FollowsAt, List.map_cons, List.map_nil, afterName_arguments_nil hlparen,
          afterName_arguments_nil (t := t.moved f) hlparen]
        rfl
      | cons u us =>
        by_cases hrparen : u.kind = .rightParen
        · rw [FollowsAt, List.map_cons, List.map_cons, afterName_no_arguments hlparen hrparen,
            afterName_no_arguments (t := t.moved f) (u := u.moved f) hlparen hrparen]
          rfl
        · rw [FollowsAt, List.map_cons, List.map_cons, afterName_arguments hlparen hrparen,
            afterName_arguments (t := t.moved f) (u := u.moved f) hlparen hrparen]
          have hlist := commaList_moved (argument_moved hinner) (argument_sees hsees) (u :: us)
          refine hlist.bind fun args vs _ => (token_moved .rightParen vs).bind fun r ws _ => ?_
          rw [FollowsAt, moveOutcome, Expr.moved_call, NonemptyList.toList_map]
          rfl
    · exact .keep (afterName_bare hdot hlparen) (afterName_bare (t := t.moved f) hdot hlparen) ts

theorem arms_moved (hinner : Follows f (Expr.moved f) inner inner) (hsees : Sees inner) :
    Follows f (List.map (Arm.moved f)) (arms inner) (arms inner) := by
  intro ts
  induction hn : ts.length using Nat.strongRecOn generalizing ts with
  | ind n ih =>
    cases ts with
    | nil =>
      rw [FollowsAt, List.map_nil, arms]
      rfl
    | cons t ts =>
      by_cases ht : t.kind = .keyword .WHEN
      · refine .cons (arms_cons hsees ht) (arms_cons hsees ht) ((hinner ts).bind
          fun cond us hcond => (keyword_moved .THEN us).bind fun p vs hthen =>
            (hinner vs).bind fun result ws hresult => ?_)
        have hlt : ws.length < n :=
          hn ▸ Nat.lt_succ_of_le (arm_length_le hsees hcond hthen hresult)
        exact (ih ws.length hlt ws rfl).bind fun as xs _ => .ok (⟨t.pos, cond, p, result⟩ :: as) xs
      · have hnone : ∀ u : Token, u.kind ≠ .keyword .WHEN → ∀ us,
            arms inner (u :: us) = .ok ([], u :: us) := by
          intro u hu us
          rw [arms, if_neg hu]
        exact .keep (hnone t ht) (hnone (t.moved f) ht) ts

theorem caseKey_moved (hinner : Follows f (Expr.moved f) inner inner) :
    Follows f (Option.map (Expr.moved f)) (caseKey inner) (caseKey inner) := by
  intro ts
  have hbranch : atCaseBranch (ts.map (Token.moved f)) = atCaseBranch ts := by
    simp only [atCaseBranch, startsWith_moved]
  unfold FollowsAt caseKey
  rw [hbranch]
  cases atCaseBranch ts with
  | true => rfl
  | false => exact (hinner ts).bind fun x us _ => .ok (some x) us

theorem otherwise_moved (hinner : Follows f (Expr.moved f) inner inner) :
    Follows f (Option.map (Otherwise.moved f)) (otherwise inner) (otherwise inner) := by
  intro ts
  cases ts with
  | nil => rfl
  | cons t ts =>
    by_cases helse : t.kind = .keyword .ELSE
    · exact .cons (fun _ => if_pos helse) (fun _ => if_pos helse)
        ((hinner ts).bind fun x us _ => .ok (some (⟨t.pos, x⟩ : Otherwise)) us)
    have hkind : (t.moved f).kind = t.kind := rfl
    rw [FollowsAt, List.map_cons, otherwise, otherwise, hkind, if_neg helse, if_neg helse]
    by_cases hend : t.kind = .keyword .END
    · rw [if_pos hend, if_pos hend]
      rfl
    · rw [if_neg hend, if_neg hend]
      rfl

theorem afterCase_moved (hinner : Follows f (Expr.moved f) inner inner) (hsees : Sees inner)
    (pos : Nat) :
    Follows f (Expr.moved f) (afterCase inner pos) (afterCase inner (f pos)) := by
  refine (caseKey_moved hinner).bind fun key => (arms_moved hinner hsees).bind fun branches => ?_
  cases branches with
  | nil => exact fun _ => rfl
  | cons first others =>
    refine fun us => (otherwise_moved hinner us).bind fun last vs _ =>
      (keyword_moved .END vs).bind fun q ws _ => ?_
    have hmoved := Expr.moved_case f pos q key first others last
    exact congrArg (fun e => Except.ok (e, ws.map (Token.moved f))) hmoved.symm

theorem afterParen_moved (hinner : Follows f (Expr.moved f) inner inner) (lparen : Nat) :
    Follows f (Expr.moved f) (afterParen inner lparen) (afterParen inner (f lparen)) := by
  intro ts
  unfold FollowsAt afterParen
  rw [startsWith_moved]
  cases startsWith (.keyword .SELECT) ts with
  | true => rfl
  | false =>
    exact (hinner ts).bind fun x us _ => (token_moved .rightParen us).bind fun r vs _ =>
      .ok (Expr.paren lparen x r) vs

theorem primary_moved (hinner : Follows f (Expr.moved f) inner inner) (hsees : Sees inner) :
    Follows f (Expr.moved f) (primary inner) (primary inner) := by
  intro ts
  cases ts with
  | nil => rfl
  | cons t ts =>
    have hkind : (t.moved f).kind = t.kind := rfl
    rw [FollowsAt, List.map_cons, primary, primary, hkind]
    cases t.kind with
    | ident => exact afterName_moved hinner hsees ⟨t.pos, t.text⟩ ts
    | leftParen => exact afterParen_moved hinner t.pos ts
    | keyword k =>
      cases k with
      | CASE => exact afterCase_moved hinner hsees t.pos ts
      | _ => rfl
    | _ => rfl

theorem unaryWith_moved {signed : Rule Expr} (hsigned : Follows f (Expr.moved f) signed signed)
    (hinner : Follows f (Expr.moved f) inner inner) (hsees : Sees inner) :
    Follows f (Expr.moved f) (unaryWith signed inner) (unaryWith signed inner) := by
  intro ts
  cases ts with
  | nil => rfl
  | cons t ts =>
    have hkind : (t.moved f).kind = t.kind := rfl
    rw [FollowsAt, List.map_cons, unaryWith, unaryWith, hkind]
    cases UnaryOp.ofKind? t.kind with
    | some op => exact (hsigned ts).bind fun x us _ => .ok (Expr.unary t.pos op x) us
    | none => exact primary_moved hinner hsees (t :: ts)

end Operands

/-! ### Nesting -/

theorem tooDeep_moved : Follows f (Expr.moved f) tooDeep tooDeep := fun _ => rfl

theorem unary_moved (n : Nat) : Follows f (Expr.moved f) (unary n) (unary n) := by
  induction n with
  | zero => exact unaryWith_moved tooDeep_moved tooDeep_moved tooDeep_sees
  | succ n ih =>
    exact unaryWith_moved ih (operators_moved ih (unary_sees n)) (operators_sees (unary_sees n))

theorem expression_moved (n : Nat) : Follows f (Expr.moved f) (expression n) (expression n) := by
  cases n with
  | zero => exact tooDeep_moved
  | succ n => exact operators_moved (unary_moved n) (unary_sees n)

/-! ### Clauses -/

section Clauses

variable {outer : Rule Expr}

theorem optionalAlias_moved :
    Follows f (Option.map (Alias.moved f)) optionalAlias optionalAlias := by
  intro ts
  cases ts with
  | nil => rfl
  | cons t ts =>
    by_cases ht : t.kind = .keyword .AS
    · exact .cons (fun _ => if_pos ht) (fun _ => if_pos ht)
        ((identifier_moved ts).bind fun n us _ => .ok (some (⟨t.pos, n⟩ : Alias)) us)
    · exact .keep (fun _ => if_neg ht) (fun _ => if_neg ht) ts

/-- A check of the next token that does not look at its position. -/
theorem FollowsAt.refuse {α : Type} {g : α → α} {rule rule' : Rule α} {ts : List Token}
    (hrule : FollowsAt f g rule rule' ts) (construct : Construct) {starts : Token → Bool}
    (hstarts : ∀ t : Token, starts (t.moved f) = starts t) :
    FollowsAt f g (fun us => Grammar.refuse construct starts us >>= fun _ => rule us)
      (fun us => Grammar.refuse construct starts us >>= fun _ => rule' us) ts := by
  cases ts with
  | nil => exact hrule
  | cons t ts =>
    rw [FollowsAt, List.map_cons, Grammar.refuse, Grammar.refuse, hstarts]
    cases starts t with
    | true => rfl
    | false => exact hrule

theorem column_moved (houter : Follows f (Expr.moved f) outer outer) :
    Follows f (Column.moved f) (column outer) (column outer) :=
  houter.bind fun x us => (optionalAlias_moved us).bind fun a vs _ => .ok (⟨x, a⟩ : Column) vs

theorem selectClause_moved (houter : Follows f (Expr.moved f) outer outer) (hsees : Sees outer) :
    Follows f (SelectClause.moved f) (selectClause outer) (selectClause outer) := by
  refine (keyword_moved .SELECT).bind fun p us =>
    (commaList_moved (column_moved houter) (column_sees hsees) us).bind fun columns vs _ => ?_
  unfold FollowsAt
  dsimp only
  rw [startsWith_moved]
  cases startsWith (.keyword .FROM) vs <;> rfl

theorem table_moved : Follows f (Table.moved f) table table := by
  intro ts
  have hname : FollowsAt f (Table.moved f)
      (fun us => identifier us >>= fun p => optionalAlias p.2 >>= fun q =>
        refuse .join startsJoin q.2 >>= fun _ => Except.ok (Table.mk p.1 q.1, q.2))
      (fun us => identifier us >>= fun p => optionalAlias p.2 >>= fun q =>
        refuse .join startsJoin q.2 >>= fun _ => Except.ok (Table.mk p.1 q.1, q.2)) ts :=
    (identifier_moved ts).bind fun n us _ => (optionalAlias_moved us).bind fun a vs _ =>
      FollowsAt.refuse (.ok (⟨n, a⟩ : Table) vs) .join fun _ => rfl
  exact hname.refuse .subquery fun _ => rfl

theorem fromClause_moved : Follows f (FromClause.moved f) fromClause fromClause := by
  refine (keyword_moved .FROM).bind fun p us =>
    (commaList_moved table_moved table_sees us).bind fun tables vs _ => ?_
  have hend : atTablesEnd (vs.map (Token.moved f)) = atTablesEnd vs := by cases vs <;> rfl
  unfold FollowsAt
  dsimp only
  rw [hend]
  cases atTablesEnd vs <;> rfl

theorem whereClause_moved (houter : Follows f (Expr.moved f) outer outer) :
    Follows f (Option.map (WhereClause.moved f)) (whereClause outer) (whereClause outer) := by
  intro ts
  cases ts with
  | nil => rfl
  | cons t ts =>
    by_cases ht : t.kind = .keyword .WHERE
    · exact .cons (fun _ => if_pos ht) (fun _ => if_pos ht)
        ((houter ts).bind fun x us _ => .ok (some (⟨t.pos, x⟩ : WhereClause)) us)
    · exact .keep (fun _ => if_neg ht) (fun _ => if_neg ht) ts

theorem byClause_moved (houter : Follows f (Expr.moved f) outer outer) (hsees : Sees outer)
    (k : Keyword) :
    Follows f (Option.map (ByClause.moved f)) (byClause outer k) (byClause outer k) := by
  intro ts
  cases ts with
  | nil => rfl
  | cons t ts =>
    by_cases ht : t.kind = .keyword k
    · exact .cons (fun _ => if_pos ht) (fun _ => if_pos ht)
        ((keyword_moved .BY ts).bind fun p us _ => (commaList_moved houter hsees us).bind
          fun items vs _ => .ok (some (⟨t.pos, p, items⟩ : ByClause)) vs)
    · exact .keep (fun _ => if_neg ht) (fun _ => if_neg ht) ts

/-! ### Statements -/

theorem statement_moved (houter : Follows f (Expr.moved f) outer outer) (hsees : Sees outer) :
    Follows f (Statement.moved f) (statement outer) (statement outer) := by
  intro ts
  unfold FollowsAt statement
  rw [startsWith_moved]
  cases startsWith (.keyword .SELECT) ts with
  | false => rfl
  | true =>
    exact (selectClause_moved houter hsees ts).bind fun select us _ =>
      (fromClause_moved us).bind fun tables vs _ => (whereClause_moved houter vs).bind
        fun cond ws _ => (byClause_moved houter hsees .GROUP ws).bind fun groupBy xs _ =>
          (byClause_moved houter hsees .ORDER xs).bind fun orderBy ys _ =>
            .ok (⟨select, tables, cond, groupBy, orderBy, []⟩ : Statement) ys

theorem ending_moved (ts : List Token) :
    ending (ts.map (Token.moved f)) = (ending ts).mapError (Refusal.moved f) := by
  cases ts with
  | nil => rfl
  | cons t ts =>
    have hkind : (t.moved f).kind = t.kind := rfl
    rw [List.map_cons, ending, ending, hkind]
    by_cases ht : t.kind = .semicolon
    · rw [if_pos ht, if_pos ht]
      cases ts <;> rfl
    · rw [if_neg ht, if_neg ht]
      rfl

theorem sentenceOf_moved (houter : Follows f (Expr.moved f) outer outer) (hsees : Sees outer)
    (ts : List Token) :
    sentenceOf outer (ts.map (Token.moved f)) =
      ((sentenceOf outer ts).map (Statement.moved f)).mapError (Refusal.moved f) := by
  unfold sentenceOf
  rw [statement_moved houter hsees ts]
  cases statement outer ts with
  | error r => rfl
  | ok p =>
    obtain ⟨s, rest⟩ := p
    change (ending (rest.map (Token.moved f)) >>= fun _ => Except.ok (s.moved f)) = _
    rw [ending_moved]
    change _ = ((ending rest >>= fun _ => Except.ok s).map (Statement.moved f)).mapError _
    cases ending rest <;> rfl

end Clauses

/-- The statement that moved tokens make up is that of the tokens, moved; and so is the refusal if
there is none. -/
theorem sentence_moved (f : Nat → Nat) (ts : List Token) :
    sentence (ts.map (Token.moved f)) =
      ((sentence ts).map (Statement.moved f)).mapError (Refusal.moved f) :=
  sentenceOf_moved (expression_moved maxNesting) (expression_sees maxNesting) ts

end SqlFormatter.Grammar
