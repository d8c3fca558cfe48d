import SqlFormatter.Proofs.Grammar.Canonical
import SqlFormatter.Proofs.Grammar.Yield

/-!
# SqlFormatter.Proofs.Grammar.Soundness.Expression

What the rules for expressions read: the tokens of their values, which are canonical and nest no
deeper than the levels to be entered. There is one lemma for each rule; a rule that takes another
one as an argument is sound if that one is. `expression_sound` ties the knot, by induction on the
levels.
-/

namespace SqlFormatter
namespace Grammar

/-- A sequence that gives a value does so in both steps. -/
theorem bind_eq_ok {ε α β : Type} {x : Except ε α} {f : α → Except ε β} {b : β}
    (h : x >>= f = .ok b) : ∃ a, x = .ok a ∧ f a = .ok b := by
  cases x with
  | error e => cases h
  | ok a => exact ⟨a, rfl, h⟩

/-- What the rule reads is the tokens of its value, and the value has the property `good`. -/
def Sound {α : Type} (rule : Rule α) (leaves : α → List Leaf) (good : α → Prop) : Prop :=
  ∀ ⦃ts a rest⦄, rule ts = .ok (a, rest) → good a ∧ Reads ts (leaves a) rest

/-! ### Tokens and lists -/

theorem token_sound {k : Kind} (hk : k.keepsText = false) :
    Sound (token k) (fun p => [.fixed p k]) (fun _ => True) := by
  intro ts p rest h
  cases ts with
  | nil => cases h
  | cons t ts =>
    rw [token] at h
    split at h
    · next heq =>
      cases h
      exact ⟨trivial, .single (Leaf.marks_fixed heq hk) _⟩
    · cases h

theorem keyword_sound (k : Keyword) :
    Sound (keyword k) (fun p => [.fixed p (.keyword k)]) (fun _ => True) := token_sound rfl

theorem identifier_sound : Sound identifier (fun n => [.ofName n]) (fun _ => True) := by
  intro ts n rest h
  cases ts with
  | nil => cases h
  | cons t ts =>
    rw [identifier] at h
    split at h
    · next heq =>
      cases h
      exact ⟨trivial, .single (Leaf.marks_ofName heq) _⟩
    · cases h

section Lists

variable {α : Type} {item : Rule α} {leaves : α → List Leaf} {good : α → Prop}

theorem commaItems_sound (hitem : Sound item leaves good) :
    Sound (commaItems item) (fun xs => xs.flatMap fun x => .comma :: leaves x)
      (fun xs => ∀ x ∈ xs, good x) := by
  intro ts xs rest h
  -- The induction is on what is left to read, because an item may take any number of tokens.
  induction hn : ts.length using Nat.strongRecOn generalizing ts xs rest with
  | ind n ih =>
    cases ts with
    | nil =>
      rw [commaItems] at h
      cases h
      exact ⟨by simp, .nil []⟩
    | cons t ts =>
      rw [commaItems] at h
      split at h
      · next hcomma =>
        obtain ⟨⟨x, us⟩, hx, h⟩ := bind_eq_ok h
        obtain ⟨hgood, hread⟩ := hitem hx
        dsimp only at h
        rw [dif_pos hread.length_le] at h
        obtain ⟨⟨xs, vs⟩, hxs, h⟩ := bind_eq_ok h
        cases h
        have hlt : us.length < n := hn ▸ hread.length_lt t
        obtain ⟨hgoods, hreads⟩ := ih us.length hlt hxs rfl
        exact ⟨List.forall_mem_cons.2 ⟨hgood, hgoods⟩,
          (hread.append hreads).cons (Leaf.marks_comma hcomma)⟩
      · cases h
        exact ⟨by simp, .nil _⟩

theorem commaList_sound (hitem : Sound item leaves good) :
    Sound (commaList item) (fun xs => Leaf.list leaves xs.toList)
      (fun xs => ∀ x ∈ xs.toList, good x) := by
  intro ts xs rest h
  obtain ⟨⟨x, us⟩, hx, h⟩ := bind_eq_ok h
  obtain ⟨⟨others, vs⟩, hothers, h⟩ := bind_eq_ok h
  cases h
  obtain ⟨hgood, hread⟩ := hitem hx
  obtain ⟨hgoods, hreads⟩ := commaItems_sound hitem hothers
  exact ⟨List.forall_mem_cons.2 ⟨hgood, hgoods⟩, hread.append hreads⟩

end Lists

/-! ### Levels of operators -/

end Grammar

namespace Expr

/-- The tier of the operator of a binary expression, and 0 for other expressions. -/
def level (e : Expr) : Nat := (e.binaryOp?.map Grammar.tierOf).getD 0

end Expr

namespace Grammar

theorem tierOf_le_iff {op o : BinaryOp} : tierOf o ≤ tierOf op ↔ op.precedence ≤ o.precedence := by
  cases op <;> cases o <;> decide

theorem tierOf_pos (op : BinaryOp) : 0 < tierOf op := by cases op <;> decide

theorem tierOf_le_tierCount (op : BinaryOp) : tierOf op ≤ tierCount := by cases op <;> decide

end Grammar

namespace Expr

open Grammar

theorem level_le_iff {e : Expr} {k : Nat} : e.level ≤ k ↔ ∀ o ∈ e.binaryOp?, tierOf o ≤ k := by
  unfold level
  cases e.binaryOp? <;> simp

theorem level_eq_zero_of_isOperand {e : Expr} (h : e.isOperand) : e.level = 0 := by
  cases e with
  | binary | isNull => cases h
  | _ => rfl

theorem level_le_tierCount (e : Expr) : e.level ≤ tierCount :=
  level_le_iff.2 fun o _ => tierOf_le_tierCount o

/-- The sides of a canonical binary expression, by tiers. -/
theorem rootCanonical_binary_iff {x y : Expr} {p : Nat} {op : BinaryOp} :
    (binary x p op y).RootCanonical ↔ x.level ≤ tierOf op ∧ y.level < tierOf op := by
  have hpos := tierOf_pos op
  rw [RootCanonical, level_le_iff, ← Nat.le_sub_one_iff_lt hpos, level_le_iff]
  refine and_congr ?_ ?_
  · simp only [tierOf_le_iff]
  · refine forall₂_congr fun o _ => ?_
    rw [Nat.le_sub_one_iff_lt hpos, ← Nat.not_le (b := op.precedence), ← tierOf_le_iff, Nat.not_le]

end Expr

namespace Grammar

/-! ### Operators -/

/-- What a rule for the `k` tightest tiers gives if `n` levels may be entered. -/
structure Tiered (n k : Nat) (e : Expr) : Prop where
  canonical : e.Canonical
  level_le : e.level ≤ k
  nesting_le : e.nesting ≤ n

/-- What a rule for operands gives if `n` levels may be entered. -/
structure Operand (n : Nat) (e : Expr) : Prop where
  isOperand : e.isOperand
  canonical : e.Canonical
  nesting_le : e.nesting ≤ n

/-- What a rule for a nested expression gives if `n` levels may be entered, that one included. -/
structure Inner (n : Nat) (e : Expr) : Prop where
  canonical : e.Canonical
  nesting_lt : e.nesting < n

section Operators

variable {n k : Nat} {operand : Rule Expr}

/-- The operators and operands that a chain reads on stand behind its first operand. -/
theorem chainFrom_sound (hoperand : Sound operand Expr.leaves (Tiered n k)) {x e : Expr}
    {ts rest : List Token} (hx : Tiered n (k + 1) x)
    (h : chainFrom operand (k + 1) x ts = .ok (e, rest)) :
    Tiered n (k + 1) e ∧ ∃ ls, e.leaves = x.leaves ++ ls ∧ Reads ts ls rest := by
  -- Operators group from the left: what was read so far is the left side of the next operator, so
  -- the induction is over all first operands.
  induction hn : ts.length using Nat.strongRecOn generalizing ts x with
  | ind m ih =>
    cases ts with
    | nil =>
      rw [chainFrom] at h
      cases h
      exact ⟨hx, [], (List.append_nil _).symm, .nil []⟩
    | cons t ts =>
      rw [chainFrom] at h
      split at h
      · cases h
        exact ⟨hx, [], (List.append_nil _).symm, .nil _⟩
      · next op hop =>
        split at h
        · next htier =>
          obtain ⟨⟨y, us⟩, hy, h⟩ := bind_eq_ok h
          obtain ⟨hygood, hread⟩ := hoperand hy
          dsimp only at h
          rw [dif_pos hread.length_le] at h
          have hroot : (Expr.binary x t.pos op y).RootCanonical := by
            rw [Expr.rootCanonical_binary_iff, htier]
            exact ⟨hx.level_le, Nat.lt_succ_of_le hygood.level_le⟩
          have hbinary : Tiered n (k + 1) (.binary x t.pos op y) := {
            canonical := Expr.canonical_binary.2 ⟨hroot, hx.canonical, hygood.canonical⟩
            level_le := Nat.le_of_eq htier
            nesting_le := Expr.nesting_binary_le_iff.2 ⟨hx.nesting_le, hygood.nesting_le⟩ }
          have hlt : us.length < m := hn ▸ hread.length_lt t
          obtain ⟨hgood, ls, hls, hreads⟩ := ih us.length hlt hbinary h rfl
          have hmark : (Leaf.fixed t.pos op.kind).Marks t :=
            Leaf.marks_fixed (BinaryOp.kind_of_ofKind?_eq_some hop).symm (by cases op <;> rfl)
          refine ⟨hgood, _, ?_, (hread.append hreads).cons hmark⟩
          rw [hls, Expr.leaves, List.append_assoc]
          rfl
        · cases h
          exact ⟨hx, [], (List.append_nil _).symm, .nil _⟩

theorem tier_sound (hoperand : Sound operand Expr.leaves (Tiered n 0)) (k : Nat) :
    Sound (tier operand k) Expr.leaves (Tiered n k) := by
  induction k with
  | zero => exact hoperand
  | succ k ih =>
    intro ts e rest h
    obtain ⟨⟨x, us⟩, hx, h⟩ := bind_eq_ok h
    obtain ⟨hxgood, hread⟩ := ih hx
    have hxgood' : Tiered n (k + 1) x :=
      { hxgood with level_le := Nat.le_succ_of_le hxgood.level_le }
    obtain ⟨hgood, ls, hls, hreads⟩ := chainFrom_sound ih hxgood' h
    exact ⟨hgood, hls ▸ hread.append hreads⟩

theorem nullTest_sound {unary : Rule Expr} (hunary : Sound unary Expr.leaves (Operand n)) :
    Sound (nullTest unary) Expr.leaves (Tiered n 0) := by
  intro ts e rest h
  obtain ⟨⟨x, us⟩, hx, h⟩ := bind_eq_ok h
  obtain ⟨hgood, hread⟩ := hunary hx
  have hbare : Tiered n 0 x :=
    ⟨hgood.canonical, Nat.le_of_eq (Expr.level_eq_zero_of_isOperand hgood.isOperand),
      hgood.nesting_le⟩
  cases us with
  | nil =>
    cases h
    exact ⟨hbare, hread⟩
  | cons t us =>
    dsimp only at h
    split at h
    · next his =>
      obtain ⟨⟨q, vs⟩, hnull, h⟩ := bind_eq_ok h
      cases h
      have htest := ((keyword_sound .NULL hnull).2).cons (Leaf.marks_fixed his rfl)
      refine ⟨⟨Expr.canonical_isNull.2 ⟨hgood.isOperand, hgood.canonical⟩, Nat.le_refl 0, ?_⟩,
        hread.append htest⟩
      exact hgood.nesting_le
    · cases h
      exact ⟨hbare, hread⟩

theorem operators_sound {unary : Rule Expr} (hunary : Sound unary Expr.leaves (Operand n)) :
    Sound (operators unary) Expr.leaves (Inner (n + 1)) := by
  intro ts e rest h
  obtain ⟨hgood, hread⟩ := tier_sound (nullTest_sound hunary) tierCount h
  exact ⟨⟨hgood.canonical, Nat.lt_succ_of_le hgood.nesting_le⟩, hread⟩

end Operators

/-! ### Operands -/

/-- What the rule reads is the tokens of its value but the first, which has the leaf `l`. -/
def SoundAfter (l : Leaf) (rule : Rule Expr) (good : Expr → Prop) : Prop :=
  ∀ ⦃ts e rest⦄, rule ts = .ok (e, rest) → good e ∧ ∃ ls, e.leaves = l :: ls ∧ Reads ts ls rest

section Operands

variable {n : Nat} {inner : Rule Expr}

/-- An expression without others inside it is an operand. -/
theorem operand_of_leaf {e : Expr} (hchildren : e.children = []) (hroot : e.RootCanonical)
    (hoperand : e.isOperand) (hnesting : e.nesting = 0) : Operand n e where
  isOperand := hoperand
  canonical := Expr.canonical_iff.2 ⟨hroot, by simp [hchildren]⟩
  nesting_le := hnesting ▸ Nat.zero_le n

theorem argument_sound (hinner : Sound inner Expr.leaves (Inner n)) :
    Sound (afterName.argument inner) Expr.leaves (Inner n) := by
  intro ts e rest h
  cases ts with
  | nil => cases h
  | cons t ts => exact hinner h

theorem afterName_sound (hinner : Sound inner Expr.leaves (Inner n)) (name : Name) :
    SoundAfter (.ofName name) (afterName inner name) (Operand n) := by
  intro ts e rest h
  have hbare : Operand n (.column none name) := operand_of_leaf rfl trivial rfl rfl
  cases ts with
  | nil =>
    cases h
    exact ⟨hbare, [], rfl, .nil []⟩
  | cons t ts =>
    unfold afterName at h
    dsimp only at h
    -- A name goes on with a dot, goes on with arguments, or is a column by itself.
    split at h
    · next hdot =>
      obtain ⟨⟨column, us⟩, hcolumn, h⟩ := bind_eq_ok h
      cases h
      exact ⟨operand_of_leaf rfl trivial rfl rfl, _, rfl,
        (identifier_sound hcolumn).2.cons (Leaf.marks_dot hdot)⟩
    · split at h
      · next hlparen =>
        have hopen : (Leaf.fixed t.pos .leftParen).Marks t := Leaf.marks_fixed hlparen rfl
        cases ts with
        | nil => cases h
        | cons u us =>
          dsimp only at h
          split at h
          · next hrparen =>
            cases h
            refine ⟨⟨rfl, Expr.canonical_call.2 (by simp),
              Expr.nesting_call_le_iff.2 (by simp)⟩, _, Expr.leaves_call .., ?_⟩
            exact (Reads.single (Leaf.marks_fixed hrparen rfl) _).cons hopen
          · obtain ⟨⟨args, vs⟩, hargs, h⟩ := bind_eq_ok h
            obtain ⟨⟨r, ws⟩, hrparen, h⟩ := bind_eq_ok h
            cases h
            obtain ⟨hgood, hread⟩ := commaList_sound (argument_sound hinner) hargs
            have hclose := (token_sound rfl hrparen).2
            exact ⟨⟨rfl, Expr.canonical_call.2 fun a ha => (hgood a ha).canonical,
              Expr.nesting_call_le_iff.2 fun a ha => (hgood a ha).nesting_lt⟩, _,
              Expr.leaves_call .., (hread.append hclose).cons hopen⟩
      · cases h
        exact ⟨hbare, [], rfl, .nil _⟩

theorem arms_sound (hinner : Sound inner Expr.leaves (Inner n)) :
    Sound (arms inner) (fun as => as.flatMap Arm.leaves)
      (fun as => ∀ a ∈ as, Inner n a.cond ∧ Inner n a.result) := by
  intro ts as rest h
  induction hn : ts.length using Nat.strongRecOn generalizing ts as rest with
  | ind m ih =>
    cases ts with
    | nil =>
      rw [arms] at h
      cases h
      exact ⟨by simp, .nil []⟩
    | cons t ts =>
      rw [arms] at h
      split at h
      · next hwhen =>
        obtain ⟨⟨cond, us⟩, hcond, h⟩ := bind_eq_ok h
        obtain ⟨⟨p, vs⟩, hthen, h⟩ := bind_eq_ok h
        obtain ⟨⟨result, ws⟩, hresult, h⟩ := bind_eq_ok h
        obtain ⟨hcondGood, hreadCond⟩ := hinner hcond
        obtain ⟨hresultGood, hreadResult⟩ := hinner hresult
        have hread := hreadCond.append ((keyword_sound .THEN hthen).2.append hreadResult)
        dsimp only at h
        rw [dif_pos hread.length_le] at h
        obtain ⟨⟨others, xs⟩, hothers, h⟩ := bind_eq_ok h
        cases h
        have hlt : ws.length < m := hn ▸ hread.length_lt t
        obtain ⟨hgoods, hreads⟩ := ih ws.length hlt hothers rfl
        exact ⟨List.forall_mem_cons.2 ⟨⟨hcondGood, hresultGood⟩, hgoods⟩,
          (hread.append hreads).cons (Leaf.marks_fixed hwhen rfl)⟩
      · cases h
        exact ⟨by simp, .nil _⟩

theorem caseKey_sound (hinner : Sound inner Expr.leaves (Inner n)) :
    Sound (caseKey inner) (fun key => key.elim [] Expr.leaves)
      (fun key => ∀ k ∈ key, Inner n k) := by
  intro ts key rest h
  rw [caseKey] at h
  split at h
  · cases h
    exact ⟨by simp, .nil _⟩
  · obtain ⟨⟨k, us⟩, hk, h⟩ := bind_eq_ok h
    cases h
    obtain ⟨hgood, hread⟩ := hinner hk
    exact ⟨by simpa using hgood, hread⟩

theorem otherwise_sound (hinner : Sound inner Expr.leaves (Inner n)) :
    Sound (otherwise inner) (fun last => last.elim [] Otherwise.leaves)
      (fun last => ∀ o ∈ last, Inner n o.result) := by
  intro ts last rest h
  cases ts with
  | nil => cases h
  | cons t ts =>
    rw [otherwise] at h
    split at h
    · next helse =>
      obtain ⟨⟨result, us⟩, hresult, h⟩ := bind_eq_ok h
      cases h
      obtain ⟨hgood, hread⟩ := hinner hresult
      exact ⟨by simpa using hgood, hread.cons (Leaf.marks_fixed helse rfl)⟩
    · split at h <;> cases h
      exact ⟨by simp, .nil _⟩

theorem afterCase_sound (hinner : Sound inner Expr.leaves (Inner n)) (p : Nat) :
    SoundAfter (.fixed p (.keyword .CASE)) (afterCase inner p) (Operand n) := by
  intro ts e rest h
  obtain ⟨⟨key, us⟩, hkey, h⟩ := bind_eq_ok h
  obtain ⟨⟨branches, vs⟩, hbranches, h⟩ := bind_eq_ok h
  cases branches with
  | nil => cases h
  | cons first others =>
    obtain ⟨⟨last, ws⟩, hlast, h⟩ := bind_eq_ok h
    obtain ⟨⟨q, xs⟩, hend, h⟩ := bind_eq_ok h
    cases h
    obtain ⟨hkeyGood, hreadKey⟩ := caseKey_sound hinner hkey
    obtain ⟨harmsGood, hreadArms⟩ := arms_sound hinner hbranches
    obtain ⟨hlastGood, hreadLast⟩ := otherwise_sound hinner hlast
    refine ⟨⟨rfl, Expr.canonical_case.2 ⟨?_, ?_, ?_⟩, Expr.nesting_case_le_iff.2 ⟨?_, ?_, ?_⟩⟩, _,
      Expr.leaves_case .., ((hreadKey.append hreadArms).append hreadLast).append
        (keyword_sound .END hend).2⟩
    · exact fun k hk => (hkeyGood k hk).canonical
    · exact fun a ha => ⟨(harmsGood a ha).1.canonical, (harmsGood a ha).2.canonical⟩
    · exact fun o ho => (hlastGood o ho).canonical
    · exact fun k hk => (hkeyGood k hk).nesting_lt
    · exact fun a ha => ⟨(harmsGood a ha).1.nesting_lt, (harmsGood a ha).2.nesting_lt⟩
    · exact fun o ho => (hlastGood o ho).nesting_lt

theorem afterParen_sound (hinner : Sound inner Expr.leaves (Inner n)) (p : Nat) :
    SoundAfter (.fixed p .leftParen) (afterParen inner p) (Operand n) := by
  intro ts e rest h
  rw [afterParen] at h
  split at h
  · cases h
  · obtain ⟨⟨x, us⟩, hx, h⟩ := bind_eq_ok h
    obtain ⟨⟨q, vs⟩, hrparen, h⟩ := bind_eq_ok h
    cases h
    obtain ⟨hgood, hread⟩ := hinner hx
    exact ⟨⟨rfl, Expr.canonical_paren.2 hgood.canonical,
      Expr.nesting_paren_le_iff.2 hgood.nesting_lt⟩, _, rfl,
      hread.append (token_sound rfl hrparen).2⟩

theorem primary_sound (hinner : Sound inner Expr.leaves (Inner n)) :
    Sound (primary inner) Expr.leaves (Operand n) := by
  intro ts e rest h
  cases ts with
  | nil => cases h
  | cons t ts =>
    have hafter : ∀ {l rule}, SoundAfter l rule (Operand n) → l.Marks t →
        rule ts = .ok (e, rest) → Operand n e ∧ Reads (t :: ts) e.leaves rest := by
      intro l rule hrule hmark hrun
      obtain ⟨hgood, ls, hls, hread⟩ := hrule hrun
      exact ⟨hgood, hls ▸ hread.cons hmark⟩
    rw [primary] at h
    split at h
    · next hk => exact hafter (afterName_sound hinner _) (Leaf.marks_ofName hk) h
    · next hk =>
      cases h
      exact ⟨operand_of_leaf rfl trivial rfl rfl, .single (Leaf.marks_literal (k := .integer) hk) _⟩
    · next hk =>
      cases h
      exact ⟨operand_of_leaf rfl trivial rfl rfl, .single (Leaf.marks_literal (k := .real) hk) _⟩
    · next hk =>
      cases h
      exact ⟨operand_of_leaf rfl trivial rfl rfl, .single (Leaf.marks_literal (k := .string) hk) _⟩
    · next hk =>
      cases h
      exact ⟨operand_of_leaf rfl trivial rfl rfl, .single (Leaf.marks_fixed hk rfl) _⟩
    · next hk => exact hafter (afterCase_sound hinner _) (Leaf.marks_fixed hk rfl) h
    · next hk => exact hafter (afterParen_sound hinner _) (Leaf.marks_fixed hk rfl) h
    · cases h

theorem unaryWith_sound {signed : Rule Expr}
    (hsigned : Sound signed Expr.leaves fun x => x.isOperand ∧ Inner n x)
    (hinner : Sound inner Expr.leaves (Inner n)) :
    Sound (unaryWith signed inner) Expr.leaves (Operand n) := by
  intro ts e rest h
  cases ts with
  | nil => cases h
  | cons t ts =>
    rw [unaryWith] at h
    split at h
    · next op hop =>
      obtain ⟨⟨x, us⟩, hx, h⟩ := bind_eq_ok h
      cases h
      obtain ⟨⟨hoperand, hgood⟩, hread⟩ := hsigned hx
      have hmark : (Leaf.fixed t.pos op.kind).Marks t :=
        Leaf.marks_fixed (UnaryOp.kind_of_ofKind?_eq_some hop).symm (by cases op <;> rfl)
      exact ⟨⟨rfl, Expr.canonical_unary.2 ⟨hoperand, hgood.canonical⟩,
        Expr.nesting_unary_le_iff.2 hgood.nesting_lt⟩, hread.cons hmark⟩
    · exact primary_sound hinner h

end Operands

/-! ### Nesting -/

theorem tooDeep_sound (good : Expr → Prop) : Sound tooDeep Expr.leaves good := by
  intro ts e rest h
  cases h

theorem unary_sound (n : Nat) : Sound (unary n) Expr.leaves (Operand n) := by
  induction n with
  | zero => exact unaryWith_sound (tooDeep_sound _) (tooDeep_sound _)
  | succ n ih =>
    -- The operand of a prefix operator is one level down, as is what stands in parentheses.
    refine unaryWith_sound (fun ts e rest h => ?_) (operators_sound ih)
    obtain ⟨hgood, hread⟩ := ih h
    exact ⟨⟨hgood.isOperand, hgood.canonical, Nat.lt_succ_of_le hgood.nesting_le⟩, hread⟩

/-- An expression that is read is canonical, stays within the levels, and is spelled by the tokens
that were read for it. -/
theorem expression_sound (n : Nat) : Sound (expression n) Expr.leaves (Inner n) := by
  cases n with
  | zero => exact tooDeep_sound _
  | succ n => exact operators_sound (unary_sound n)

end Grammar

end SqlFormatter
