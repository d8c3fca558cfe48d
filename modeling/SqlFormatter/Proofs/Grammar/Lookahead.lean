import SqlFormatter.Grammar.Statement

/-!
# SqlFormatter.Proofs.Grammar.Lookahead

The grammar looks one token ahead. Of a list of tokens a rule sees those that it reads and the next
one (`Sees`): whatever stands behind that one, the outcome is the same, but for the tokens left.

There is one lemma for each rule. The main result is `sentenceOf_error_congr`: a refusal of the
grammar depends on nothing behind the token that it is about.
-/

namespace SqlFormatter.Grammar

/-! ### What a rule sees -/

section Sees

variable {α β : Type}

/-- The tokens that an outcome leaves. -/
def left : Except Refusal (α × List Token) → List Token
  | .ok (_, rest) => rest
  | .error r => r.rest

/-- The outcome with `rest` left in place of what is left. -/
def leaving (rest : List Token) :
    Except Refusal (α × List Token) → Except Refusal (α × List Token)
  | .ok (a, _) => .ok (a, rest)
  | .error r => .error { r with rest }

theorem leaving_left (outcome : Except Refusal (α × List Token)) :
    leaving (left outcome) outcome = outcome := by
  cases outcome <;> rfl

/-- Of the tokens `ts` the rule sees those that it reads, and the next one. -/
def SeesAt (rule : Rule α) (ts : List Token) : Prop :=
  ∃ read, ts = read ++ left (rule ts) ∧
    ∀ rest, rest.head? = (left (rule ts)).head? → rule (read ++ rest) = leaving rest (rule ts)

/-- Of any tokens the rule sees those that it reads, and the next one. -/
def Sees (rule : Rule α) : Prop := ∀ ts, SeesAt rule ts

variable {rule rule' : Rule α} {t : Token} {ts : List Token}

theorem Sees.length_le {a : α} {rest : List Token} (h : Sees rule)
    (hrun : rule ts = .ok (a, rest)) : rest.length ≤ ts.length := by
  obtain ⟨read, hts, -⟩ := h ts
  rw [hrun] at hts
  rw [hts, List.length_append]
  exact Nat.le_add_left _ _

/-- A rule that does the same as another one wherever the next token is the same. -/
theorem SeesAt.congr (hrule : SeesAt rule' ts)
    (h : ∀ us : List Token, us.head? = ts.head? → rule us = rule' us) : SeesAt rule ts := by
  obtain ⟨read, hread, hrest⟩ := hrule
  rw [SeesAt, h ts rfl]
  refine ⟨read, hread, fun rest hhead => ?_⟩
  have hnext : (read ++ rest).head? = ts.head? := by
    -- The next token is one that is read, or the one behind those.
    cases read with
    | nil => exact hhead.trans (congrArg List.head? hread).symm
    | cons t read => rw [hread]; rfl
  rw [h _ hnext, hrest rest hhead]

theorem SeesAt.peek (hrule : SeesAt rule' (t :: ts)) (h : ∀ us, rule (t :: us) = rule' (t :: us)) :
    SeesAt rule (t :: ts) := by
  refine hrule.congr fun us hus => ?_
  obtain ⟨us, rfl⟩ := List.head?_eq_some_iff.1 hus
  exact h us

/-- At the end there is nothing to be seen. -/
theorem SeesAt.nil (h : left (rule []) = []) : SeesAt rule [] := by
  refine ⟨[], by rw [h]; rfl, fun rest hrest => ?_⟩
  rw [h] at hrest
  obtain rfl := List.head?_eq_none_iff.1 hrest
  have hleaving := leaving_left (rule [])
  rw [h] at hleaving
  exact hleaving.symm

/-- A rule that reads the next token and then goes on as another one. -/
theorem SeesAt.cons (h : ∀ us, rule (t :: us) = rule' us) (hrule : SeesAt rule' ts) :
    SeesAt rule (t :: ts) := by
  obtain ⟨read, hread, hrest⟩ := hrule
  rw [SeesAt, h ts]
  refine ⟨t :: read, congrArg (t :: ·) hread, fun rest hhead => ?_⟩
  rw [List.cons_append, h]
  exact hrest rest hhead

theorem SeesAt.ok (a : α) (ts : List Token) : SeesAt (fun us => .ok (a, us)) ts :=
  ⟨[], rfl, fun _ _ => rfl⟩

theorem SeesAt.error (c : Complaint) (ts : List Token) :
    SeesAt (α := α) (fun us => .error ⟨c, us⟩) ts :=
  ⟨[], rfl, fun _ _ => rfl⟩

/-- A sequence that is refused is so in its first or in its second step. -/
theorem bind_eq_error {ε : Type} {x : Except ε α} {f : α → Except ε β} {e : ε}
    (h : x >>= f = .error e) : x = .error e ∨ ∃ a, x = .ok a ∧ f a = .error e := by
  cases x with
  | error e' =>
    cases h
    exact Or.inl rfl
  | ok a => exact Or.inr ⟨a, rfl, h⟩

/-- Two ways to go on are one if they agree on the value that there is. -/
theorem bind_congr_ok {ε : Type} {x : Except ε α} {f g : α → Except ε β}
    (h : ∀ a, x = .ok a → f a = g a) : x >>= f = x >>= g := by
  cases x with
  | error e => rfl
  | ok a => exact h a rfl

/-- One rule after another. -/
theorem SeesAt.bind {next : α × List Token → Except Refusal (β × List Token)}
    (hrule : SeesAt rule ts)
    (hnext : ∀ a us, rule ts = .ok (a, us) → SeesAt (fun vs => next (a, vs)) us) :
    SeesAt (fun ts => rule ts >>= next) ts := by
  obtain ⟨read, hread, hrest⟩ := hrule
  rw [SeesAt]
  cases hrun : rule ts with
  | error r =>
    rw [hrun] at hread hrest
    refine ⟨read, hread, fun rest hhead => ?_⟩
    rw [hrest rest hhead]
    rfl
  | ok p =>
    obtain ⟨a, us⟩ := p
    rw [hrun] at hread hrest
    obtain ⟨read', hread', hrest'⟩ := hnext a us hrun
    refine ⟨read ++ read', ?_, fun rest hhead => ?_⟩
    · rw [List.append_assoc]
      exact hread.trans (congrArg (read ++ ·) hread')
    · -- The first rule still has the same token next.
      have hnext : (read' ++ rest).head? = us.head? := by
        have hus : us = read' ++ left (next (a, us)) := hread'
        cases read' with
        | nil => exact hhead.trans (congrArg List.head? hus).symm
        | cons u vs => rw [hus]; rfl
      rw [List.append_assoc, hrest _ hnext]
      exact hrest' rest hhead

/-- A rule that sees what another one does, and changes its value. -/
theorem Sees.bind {next : α × List Token → Except Refusal (β × List Token)} (hrule : Sees rule)
    (hnext : ∀ a, Sees fun vs => next (a, vs)) : Sees fun ts => rule ts >>= next :=
  fun ts => (hrule ts).bind fun a us _ => hnext a us

end Sees

/-! ### Tokens and lists -/

theorem token_sees (k : Kind) : Sees (token k) := by
  intro ts
  cases ts with
  | nil => exact .nil rfl
  | cons t ts =>
    by_cases h : t.kind = k
    · exact .cons (fun us => if_pos h) (.ok t.pos ts)
    · exact SeesAt.peek (.error _ _) fun us => if_neg h

theorem keyword_sees (k : Keyword) : Sees (keyword k) := token_sees _

theorem identifier_sees : Sees identifier := by
  intro ts
  cases ts with
  | nil => exact .nil rfl
  | cons t ts =>
    by_cases h : t.kind = .ident
    · exact .cons (fun us => if_pos h) (.ok _ ts)
    · exact SeesAt.peek (.error _ _) fun us => if_neg h

section Lists

variable {α : Type} {item : Rule α}

/-- The check that a list becomes shorter never fails. -/
theorem commaItems_cons (hitem : Sees item) {t : Token} (ht : t.kind = .comma)
    (ts : List Token) :
    commaItems item (t :: ts) = item ts >>= fun p =>
      commaItems item p.2 >>= fun q => .ok (p.1 :: q.1, q.2) := by
  rw [commaItems, if_pos ht]
  exact bind_congr_ok fun p hp => dif_pos (hitem.length_le hp)

theorem commaItems_sees (hitem : Sees item) : Sees (commaItems item) := by
  intro ts
  induction hn : ts.length using Nat.strongRecOn generalizing ts with
  | ind n ih =>
    cases ts with
    | nil =>
      refine .nil ?_
      rw [commaItems]
      rfl
    | cons t ts =>
      by_cases ht : t.kind = .comma
      · refine .cons (commaItems_cons hitem ht) ((hitem ts).bind fun x us hrun => ?_)
        have hlt : us.length < n := hn ▸ Nat.lt_succ_of_le (hitem.length_le hrun)
        exact (ih us.length hlt us rfl).bind fun xs vs _ => .ok _ vs
      · refine SeesAt.peek (.ok [] _) fun us => ?_
        rw [commaItems, if_neg ht]

theorem commaList_sees (hitem : Sees item) : Sees (commaList item) :=
  hitem.bind fun _ => (commaItems_sees hitem).bind fun _ ts => .ok _ ts

end Lists

/-! ### Operators -/

section Operators

variable {operand : Rule Expr} {k : Nat}

/-- The check that a chain reads on never fails. -/
theorem chainFrom_cons (hoperand : Sees operand) {t : Token} {op : BinaryOp}
    (hop : BinaryOp.ofKind? t.kind = some op) (htier : tierOf op = k) (x : Expr)
    (ts : List Token) :
    chainFrom operand k x (t :: ts) = operand ts >>= fun p =>
      chainFrom operand k (.binary x t.pos op p.1) p.2 := by
  rw [chainFrom]
  simp only [hop]
  rw [if_pos htier]
  exact bind_congr_ok fun p hp => dif_pos (hoperand.length_le hp)

theorem chainFrom_sees (hoperand : Sees operand) (x : Expr) : Sees (chainFrom operand k x) := by
  intro ts
  induction hn : ts.length using Nat.strongRecOn generalizing ts x with
  | ind n ih =>
    cases ts with
    | nil =>
      refine .nil ?_
      rw [chainFrom]
      rfl
    | cons t ts =>
      cases hop : BinaryOp.ofKind? t.kind with
      | none =>
        refine SeesAt.peek (.ok x _) fun us => ?_
        rw [chainFrom]
        simp only [hop]
      | some op =>
        by_cases htier : tierOf op = k
        · refine .cons (chainFrom_cons hoperand hop htier x)
            ((hoperand ts).bind fun y us hrun => ?_)
          have hlt : us.length < n := hn ▸ Nat.lt_succ_of_le (hoperand.length_le hrun)
          exact ih us.length hlt _ us rfl
        · refine SeesAt.peek (.ok x _) fun us => ?_
          rw [chainFrom]
          simp only [hop]
          rw [if_neg htier]

theorem tier_sees (hoperand : Sees operand) (k : Nat) : Sees (tier operand k) := by
  induction k with
  | zero => exact hoperand
  | succ k ih => exact ih.bind fun x => chainFrom_sees ih x

theorem nullTest_sees {unary : Rule Expr} (hunary : Sees unary) : Sees (nullTest unary) := by
  refine hunary.bind fun x us => ?_
  cases us with
  | nil => exact .nil rfl
  | cons t us =>
    by_cases ht : t.kind = .keyword .IS
    · exact .cons (fun vs => if_pos ht) ((keyword_sees .NULL us).bind fun _ ts _ => .ok _ ts)
    · exact SeesAt.peek (.ok x _) fun vs => if_neg ht

theorem operators_sees {unary : Rule Expr} (hunary : Sees unary) : Sees (operators unary) :=
  tier_sees (nullTest_sees hunary) tierCount

end Operators

/-! ### Operands -/

section Operands

variable {inner : Rule Expr}

theorem argument_sees (hinner : Sees inner) : Sees (afterName.argument inner) := by
  intro ts
  cases ts with
  | nil => exact .nil rfl
  | cons t ts =>
    have hrule := hinner (t :: ts)
    exact hrule.peek fun _ => rfl

section AfterName

variable {name : Name} {t u : Token}

theorem afterName_dot (ht : t.kind = .dot) (ts : List Token) :
    afterName inner name (t :: ts) =
      identifier ts >>= fun p => .ok (.column (some name) p.1, p.2) := if_pos ht

theorem afterName_bare (hdot : t.kind ≠ .dot) (hlparen : t.kind ≠ .leftParen) (ts : List Token) :
    afterName inner name (t :: ts) = .ok (.column none name, t :: ts) := by
  unfold afterName
  dsimp only
  rw [if_neg hdot, if_neg hlparen]

theorem afterName_arguments_nil (ht : t.kind = .leftParen) :
    afterName inner name [t] = unexpected .functionArgument [] := by
  unfold afterName
  dsimp only
  rw [if_neg (by rw [ht]; decide), if_pos ht]

theorem afterName_no_arguments (ht : t.kind = .leftParen) (hu : u.kind = .rightParen)
    (us : List Token) :
    afterName inner name (t :: u :: us) = .ok (.call name t.pos [] u.pos, us) := by
  unfold afterName
  dsimp only
  rw [if_neg (by rw [ht]; decide), if_pos ht, if_pos hu]

theorem afterName_arguments (ht : t.kind = .leftParen) (hu : u.kind ≠ .rightParen)
    (us : List Token) :
    afterName inner name (t :: u :: us) =
      commaList (afterName.argument inner) (u :: us) >>= fun p =>
        token .rightParen p.2 >>= fun q => .ok (.call name t.pos p.1.toList q.1, q.2) := by
  unfold afterName
  dsimp only
  rw [if_neg (by rw [ht]; decide), if_pos ht, if_neg hu]
  rfl

end AfterName

theorem afterName_sees (hinner : Sees inner) (name : Name) : Sees (afterName inner name) := by
  intro ts
  cases ts with
  | nil => exact .nil rfl
  | cons t ts =>
    by_cases hdot : t.kind = .dot
    · exact .cons (afterName_dot hdot) ((identifier_sees ts).bind fun _ us _ => .ok _ us)
    by_cases hlparen : t.kind = .leftParen
    · -- Behind the left parenthesis the rule looks at one more token.
      have hlist : SeesAt (fun us => afterName inner name (t :: us)) ts := by
        cases ts with
        | nil => exact .nil (congrArg left (afterName_arguments_nil hlparen))
        | cons u us =>
          by_cases hrparen : u.kind = .rightParen
          · exact .cons (afterName_no_arguments hlparen hrparen) (.ok _ us)
          · have hlist : SeesAt (fun vs => commaList (afterName.argument inner) vs >>= fun p =>
                token .rightParen p.2 >>= fun q =>
                  Except.ok (Expr.call name t.pos p.1.toList q.1, q.2)) (u :: us) :=
              (commaList_sees (argument_sees hinner) _).bind fun _ vs _ =>
                (token_sees .rightParen vs).bind fun _ ws _ => .ok _ ws
            exact hlist.peek (afterName_arguments hlparen hrparen)
      exact hlist.cons fun _ => rfl
    · exact SeesAt.peek (.ok _ _) (afterName_bare hdot hlparen)

theorem arm_length_le (hinner : Sees inner) {ts us vs ws : List Token} {cond result : Expr}
    {thenPos : Nat} (hcond : inner ts = .ok (cond, us))
    (hthen : keyword .THEN us = .ok (thenPos, vs)) (hresult : inner vs = .ok (result, ws)) :
    ws.length ≤ ts.length :=
  calc ws.length ≤ vs.length := hinner.length_le hresult
    _ ≤ us.length := (keyword_sees .THEN).length_le hthen
    _ ≤ ts.length := hinner.length_le hcond

/-- The check that the arms become fewer never fails. -/
theorem arms_cons (hinner : Sees inner) {t : Token} (ht : t.kind = .keyword .WHEN)
    (ts : List Token) :
    arms inner (t :: ts) = inner ts >>= fun p => keyword .THEN p.2 >>= fun q =>
      inner q.2 >>= fun r => arms inner r.2 >>= fun others =>
        .ok (⟨t.pos, p.1, q.1, r.1⟩ :: others.1, others.2) := by
  rw [arms, if_pos ht]
  exact bind_congr_ok fun p hp => bind_congr_ok fun q hq => bind_congr_ok fun r hr =>
    dif_pos (arm_length_le hinner hp hq hr)

theorem arms_sees (hinner : Sees inner) : Sees (arms inner) := by
  intro ts
  induction hn : ts.length using Nat.strongRecOn generalizing ts with
  | ind n ih =>
    cases ts with
    | nil =>
      refine .nil ?_
      rw [arms]
      rfl
    | cons t ts =>
      by_cases ht : t.kind = .keyword .WHEN
      · refine .cons (arms_cons hinner ht) ((hinner ts).bind fun cond us hcond =>
          (keyword_sees .THEN us).bind fun p vs hthen =>
            (hinner vs).bind fun result ws hresult => ?_)
        have hlt : ws.length < n :=
          hn ▸ Nat.lt_succ_of_le (arm_length_le hinner hcond hthen hresult)
        exact (ih ws.length hlt ws rfl).bind fun _ xs _ => .ok _ xs
      · refine SeesAt.peek (.ok [] _) fun us => ?_
        rw [arms, if_neg ht]

theorem startsWith_congr {ts us : List Token} (h : us.head? = ts.head?) (k : Kind) :
    startsWith k us = startsWith k ts := by
  cases ts <;> cases us <;> cases h <;> rfl

theorem caseKey_sees (hinner : Sees inner) : Sees (caseKey inner) := by
  intro ts
  have hbranch : ∀ us : List Token, us.head? = ts.head? → atCaseBranch us = atCaseBranch ts := by
    intro us hus
    simp only [atCaseBranch, startsWith_congr hus]
  cases hts : atCaseBranch ts with
  | true =>
    refine SeesAt.congr (.ok none ts) fun us hus => ?_
    rw [caseKey, hbranch us hus, hts, if_pos rfl]
  | false =>
    have hkey : SeesAt (fun us => inner us >>= fun p => Except.ok (some p.1, p.2)) ts :=
      (hinner ts).bind fun _ us _ => .ok _ us
    refine hkey.congr fun us hus => ?_
    rw [caseKey, hbranch us hus, hts, if_neg Bool.false_ne_true]
    rfl

theorem otherwise_sees (hinner : Sees inner) : Sees (otherwise inner) := by
  intro ts
  cases ts with
  | nil => exact .nil rfl
  | cons t ts =>
    by_cases helse : t.kind = .keyword .ELSE
    · exact .cons (fun us => if_pos helse) ((hinner ts).bind fun _ us _ => .ok _ us)
    by_cases hend : t.kind = .keyword .END
    · refine SeesAt.peek (.ok none _) fun us => ?_
      rw [otherwise, if_neg helse, if_pos hend]
    · refine SeesAt.peek (.error (.unexpected .caseBranch) _) fun us => ?_
      rw [otherwise, if_neg helse, if_neg hend]
      rfl

theorem afterCase_sees (hinner : Sees inner) (pos : Nat) : Sees (afterCase inner pos) := by
  refine (caseKey_sees hinner).bind fun key => (arms_sees hinner).bind fun branches => ?_
  cases branches with
  | nil => exact fun us => .error _ us
  | cons first others =>
    exact fun us => (otherwise_sees hinner us).bind fun last vs _ =>
      (keyword_sees .END vs).bind fun _ ws _ => .ok _ ws

theorem afterParen_sees (hinner : Sees inner) (lparen : Nat) : Sees (afterParen inner lparen) := by
  intro ts
  cases hts : startsWith (.keyword .SELECT) ts with
  | true =>
    refine SeesAt.congr (.error (.unsupported .subquery lparen) ts) fun us hus => ?_
    rw [afterParen, startsWith_congr hus, hts, if_pos rfl]
  | false =>
    have hexpr : SeesAt (fun us => inner us >>= fun p =>
        token .rightParen p.2 >>= fun q => Except.ok (Expr.paren lparen p.1 q.1, q.2)) ts :=
      (hinner ts).bind fun _ us _ => (token_sees .rightParen us).bind fun _ vs _ => .ok _ vs
    refine hexpr.congr fun us hus => ?_
    rw [afterParen, startsWith_congr hus, hts, if_neg Bool.false_ne_true]
    rfl

theorem primary_sees (hinner : Sees inner) : Sees (primary inner) := by
  intro ts
  cases ts with
  | nil => exact .nil rfl
  | cons t ts =>
    have hleaf : ∀ e, (∀ us, primary inner (t :: us) = .ok (e, us)) →
        SeesAt (primary inner) (t :: ts) := fun e h => .cons h (.ok e ts)
    have hrefused : (∀ us, primary inner (t :: us) = unexpected .expression (t :: us)) →
        SeesAt (primary inner) (t :: ts) :=
      fun h => SeesAt.peek (.error (.unexpected .expression) _) h
    cases hkind : t.kind with
    | ident =>
      refine .cons (fun us => ?_) (afterName_sees hinner ⟨t.pos, t.text⟩ ts)
      simp only [primary, hkind]
    | integer | real | string | star => exact hleaf _ fun us => by simp only [primary, hkind]; rfl
    | leftParen =>
      refine .cons (fun us => ?_) (afterParen_sees hinner t.pos ts)
      simp only [primary, hkind]
    | keyword k =>
      cases k with
      | CASE =>
        refine .cons (fun us => ?_) (afterCase_sees hinner t.pos ts)
        simp only [primary, hkind]
      | _ => exact hrefused fun us => by simp only [primary, hkind]
    | _ => exact hrefused fun us => by simp only [primary, hkind]

theorem unaryWith_sees {signed : Rule Expr} (hsigned : Sees signed) (hinner : Sees inner) :
    Sees (unaryWith signed inner) := by
  intro ts
  cases ts with
  | nil => exact .nil rfl
  | cons t ts =>
    cases hop : UnaryOp.ofKind? t.kind with
    | some op =>
      have hsign : SeesAt (fun us => signed us >>= fun p =>
          Except.ok (Expr.unary t.pos op p.1, p.2)) ts := (hsigned ts).bind fun _ us _ => .ok _ us
      refine hsign.cons fun us => ?_
      simp only [unaryWith, hop]
      rfl
    | none =>
      refine (primary_sees hinner (t :: ts)).peek fun us => ?_
      simp only [unaryWith, hop]

end Operands

/-! ### Nesting -/

theorem tooDeep_sees : Sees tooDeep := fun ts => .error _ ts

theorem unary_sees (n : Nat) : Sees (unary n) := by
  induction n with
  | zero => exact unaryWith_sees tooDeep_sees tooDeep_sees
  | succ n ih => exact unaryWith_sees ih (operators_sees ih)

theorem expression_sees (n : Nat) : Sees (expression n) := by
  cases n with
  | zero => exact tooDeep_sees
  | succ n => exact operators_sees (unary_sees n)

/-! ### Clauses -/

section Clauses

variable {outer : Rule Expr}

theorem optionalAlias_sees : Sees optionalAlias := by
  intro ts
  cases ts with
  | nil => exact .nil rfl
  | cons t ts =>
    by_cases ht : t.kind = .keyword .AS
    · exact .cons (fun us => if_pos ht) ((identifier_sees ts).bind fun _ us _ => .ok _ us)
    · exact SeesAt.peek (.ok none _) fun us => if_neg ht

/-- A check looks at the next token. -/
theorem SeesAt.refuse {α : Type} {rule : Rule α} {ts : List Token} (hrule : SeesAt rule ts)
    (construct : Construct) (starts : Token → Bool) :
    SeesAt (fun us => Grammar.refuse construct starts us >>= fun _ => rule us) ts := by
  cases ts with
  | nil =>
    refine hrule.congr fun us hus => ?_
    obtain rfl := List.head?_eq_none_iff.1 hus
    rfl
  | cons t ts =>
    cases ht : starts t with
    | false =>
      refine hrule.peek fun us => ?_
      rw [Grammar.refuse, ht, if_neg Bool.false_ne_true]
      rfl
    | true =>
      refine SeesAt.peek (.error (.unsupported construct t.pos) _) fun us => ?_
      rw [Grammar.refuse, ht, if_pos rfl]
      rfl

theorem column_sees (houter : Sees outer) : Sees (column outer) :=
  houter.bind fun _ us => (optionalAlias_sees us).bind fun _ vs _ => .ok _ vs

/-- A clause must have the right token behind it. -/
theorem SeesAt.followed {α : Type} {a : α} {p : List Token → Bool}
    (hp : ∀ {us vs : List Token}, us.head? = vs.head? → p us = p vs) (expected : Expectation)
    (ts : List Token) :
    SeesAt (fun us => if p us then Except.ok (a, us) else unexpected expected us) ts := by
  cases hts : p ts with
  | true => exact SeesAt.congr (.ok a ts) fun us hus => by rw [hp hus, hts, if_pos rfl]
  | false =>
    refine SeesAt.congr (.error (.unexpected expected) ts) fun us hus => ?_
    rw [hp hus, hts, if_neg Bool.false_ne_true]
    rfl

theorem selectClause_sees (houter : Sees outer) : Sees (selectClause outer) :=
  (keyword_sees .SELECT).bind fun _ us =>
    (commaList_sees (column_sees houter) us).bind fun _ vs _ =>
      .followed (fun h => startsWith_congr h _) _ vs

theorem table_sees : Sees table := by
  intro ts
  have hname : SeesAt (fun us => identifier us >>= fun p => optionalAlias p.2 >>= fun q =>
      refuse .join startsJoin q.2 >>= fun _ => Except.ok (Table.mk p.1 q.1, q.2)) ts :=
    (identifier_sees ts).bind fun _ us _ => (optionalAlias_sees us).bind fun _ vs _ =>
      SeesAt.refuse (.ok _ vs) .join startsJoin
  exact hname.refuse .subquery (·.kind == .leftParen)

theorem atTablesEnd_congr {ts us : List Token} (h : us.head? = ts.head?) :
    atTablesEnd us = atTablesEnd ts := by
  cases ts <;> cases us <;> cases h <;> rfl

theorem fromClause_sees : Sees fromClause :=
  (keyword_sees .FROM).bind fun _ us => (commaList_sees table_sees us).bind fun _ vs _ =>
    .followed atTablesEnd_congr _ vs

theorem whereClause_sees (houter : Sees outer) : Sees (whereClause outer) := by
  intro ts
  cases ts with
  | nil => exact .nil rfl
  | cons t ts =>
    by_cases ht : t.kind = .keyword .WHERE
    · exact .cons (fun us => if_pos ht) ((houter ts).bind fun _ us _ => .ok _ us)
    · exact SeesAt.peek (.ok none _) fun us => if_neg ht

theorem byClause_sees (houter : Sees outer) (k : Keyword) : Sees (byClause outer k) := by
  intro ts
  cases ts with
  | nil => exact .nil rfl
  | cons t ts =>
    by_cases ht : t.kind = .keyword k
    · exact .cons (fun us => if_pos ht) ((keyword_sees .BY ts).bind fun _ us _ =>
        (commaList_sees houter us).bind fun _ vs _ => .ok _ vs)
    · exact SeesAt.peek (.ok none _) fun us => if_neg ht

/-! ### Statements -/

theorem statement_sees (houter : Sees outer) : Sees (statement outer) := by
  intro ts
  cases hts : startsWith (.keyword .SELECT) ts with
  | false =>
    refine SeesAt.congr (.error (.unexpected .statement) ts) fun us hus => ?_
    unfold statement
    rw [startsWith_congr hus, hts]
    rfl
  | true =>
    have hclauses : SeesAt (fun us => selectClause outer us >>= fun select =>
        fromClause select.2 >>= fun tables => whereClause outer tables.2 >>= fun cond =>
          byClause outer .GROUP cond.2 >>= fun groupBy =>
            byClause outer .ORDER groupBy.2 >>= fun orderBy =>
              Except.ok (Statement.mk select.1 tables.1 cond.1 groupBy.1 orderBy.1 [],
                orderBy.2)) ts :=
      (selectClause_sees houter ts).bind fun _ us _ => (fromClause_sees us).bind fun _ vs _ =>
        (whereClause_sees houter vs).bind fun _ ws _ =>
          (byClause_sees houter .GROUP ws).bind fun _ xs _ =>
            (byClause_sees houter .ORDER xs).bind fun _ ys _ => .ok _ ys
    refine hclauses.congr fun us hus => ?_
    unfold statement
    rw [startsWith_congr hus, hts]
    rfl

/-- The rule for a sentence, which leaves nothing. -/
def closedSentence (outer : Rule Expr) : Rule Statement := fun ts =>
  statement outer ts >>= fun p => ending p.2 >>= fun _ => .ok (p.1, [])

theorem closedSentence_eq_error_iff {ts : List Token} {r : Refusal} :
    closedSentence outer ts = .error r ↔ sentenceOf outer ts = .error r := by
  unfold closedSentence sentenceOf
  cases statement outer ts with
  | error e => exact ⟨fun h => by cases h; rfl, fun h => by cases h; rfl⟩
  | ok p =>
    show (ending p.2 >>= fun _ => Except.ok (p.1, [])) = .error r ↔
      (ending p.2 >>= fun _ => Except.ok p.1) = .error r
    cases ending p.2 with
    | error e => exact ⟨fun h => by cases h; rfl, fun h => by cases h; rfl⟩
    | ok _ => exact iff_of_false nofun nofun

theorem closedSentence_sees (houter : Sees outer) : Sees (closedSentence outer) := by
  refine (statement_sees houter).bind fun s ts => ?_
  cases ts with
  | nil => exact .nil rfl
  | cons t ts =>
    by_cases ht : t.kind = .semicolon
    · have hbehind : SeesAt (fun us => refuse .multipleStatements (fun _ => true) us >>= fun _ =>
          Except.ok (s, ([] : List Token))) ts := by
        cases ts with
        | nil => exact .nil rfl
        | cons u us =>
          exact SeesAt.peek (.error (.unsupported .multipleStatements u.pos) _) fun _ => rfl
      refine hbehind.cons fun us => ?_
      rw [ending, if_pos ht]
    · refine SeesAt.peek (.error (.unexpected .endOfStatement) _) fun us => ?_
      rw [ending, if_neg ht]
      rfl

end Clauses

/-- A refusal of the grammar depends on nothing behind the token that it is about. -/
theorem sentenceOf_error_congr {outer : Rule Expr} (houter : Sees outer) {ts : List Token}
    {r : Refusal} (h : sentenceOf outer ts = .error r) :
    ∃ read, ts = read ++ r.rest ∧ ∀ rest, rest.head? = r.rest.head? →
      sentenceOf outer (read ++ rest) = .error { r with rest } := by
  obtain ⟨read, hread, hrest⟩ := closedSentence_sees houter ts
  rw [closedSentence_eq_error_iff.2 h] at hread hrest
  exact ⟨read, hread, fun rest hhead => closedSentence_eq_error_iff.1 (hrest rest hhead)⟩

end SqlFormatter.Grammar
