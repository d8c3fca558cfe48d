import SqlFormatter.Proofs.Grammar.Soundness.Expression

/-!
# SqlFormatter.Proofs.Grammar.Completeness.Expression

The rules for expressions read every canonical tree from its words, and refuse it for its nesting
just when it nests too deep (`expression_complete`).

* `Yields` is what a rule comes to: a value with which the reading goes on, if some condition on
  the levels holds, and otherwise the refusal of deeper nesting.
* An expression is read right only if the token behind it cannot continue it. `Stops k` says so of
  the operators of the `k` tightest tiers.
* The tiers are climbed by `Climbs`: the first operand of a chain may be a chain itself, so what is
  proved of a tier is not where it ends but with which operand its loop goes on.
-/

namespace SqlFormatter

namespace Grammar

/-! ### What a rule comes to -/

section Yields

variable {α β γ : Type}

/-- The outcome `r` is that of going on with `next` from a value with the property `good`, or, if
the levels do not suffice for it, the refusal of deeper nesting. -/
def Yields (good : α → Prop) (fits : Prop) (next : α → Except Refusal β) (r : Except Refusal β) :
    Prop :=
  (fits → ∃ a, good a ∧ r = next a) ∧
    (¬fits → ∃ ts, r = .error ⟨.unexpected .shallowerNesting, ts⟩)

/-- The outcome is a value with the property `good`, with `rest` left to read. -/
def Exact (good : α → Prop) (fits : Prop) (rest : List Token)
    (r : Except Refusal (α × List Token)) : Prop :=
  Yields good fits (fun a => .ok (a, rest)) r

variable {good : α → Prop} {good' : γ → Prop} {fits fits' : Prop}

theorem Yields.of_good {next : α → Except Refusal β} {a : α} (h : good a) :
    Yields good True next (next a) := ⟨fun _ => ⟨a, h, rfl⟩, fun hnot => absurd trivial hnot⟩

theorem Exact.of_good {rest : List Token} {a : α} (h : good a) (hfits : fits) :
    Exact good fits rest (.ok (a, rest)) := ⟨fun _ => ⟨a, h, rfl⟩, fun hnot => absurd hfits hnot⟩

theorem Yields.congr {next : α → Except Refusal β} {r : Except Refusal β} (h : fits ↔ fits')
    (hr : Yields good fits next r) : Yields good fits' next r :=
  ⟨fun hfits => hr.1 (h.2 hfits), fun hnot => hr.2 fun hfits => hnot (h.1 hfits)⟩

/-- Where the reading goes on from the first value, it comes to what the second part does. -/
theorem Yields.trans {next : α → Except Refusal β} {next' : γ → Except Refusal β}
    {r : Except Refusal β} (hr : Yields good fits next r)
    (hnext : ∀ a, good a → Yields good' fits' next' (next a)) :
    Yields good' (fits ∧ fits') next' r := by
  -- If the first value does not fit, its refusal is that of the whole.
  by_cases hfits : fits
  · obtain ⟨a, ha, rfl⟩ := hr.1 hfits
    exact (hnext a ha).congr ⟨fun h => ⟨hfits, h⟩, fun h => h.2⟩
  · exact ⟨fun h => absurd h.1 hfits, fun _ => hr.2 hfits⟩

/-- The value may be changed, if the reading goes on in the same way. -/
theorem Yields.map {next : α → Except Refusal β} {next' : γ → Except Refusal β}
    {r : Except Refusal β} (hr : Yields good fits next r)
    (hnext : ∀ a, good a → ∃ b, good' b ∧ next a = next' b) : Yields good' fits next' r := by
  have htrans : Yields good' (fits ∧ True) next' r := hr.trans fun a ha => by
    obtain ⟨b, hb, heq⟩ := hnext a ha
    rw [heq]
    exact .of_good hb
  exact htrans.congr (by rw [and_true])

/-- After a rule the reading goes on with what is left. -/
theorem Exact.bind {us : List Token} {r : Except Refusal (α × List Token)}
    (hr : Exact good fits us r) (f : α × List Token → Except Refusal β) :
    Yields good fits (fun a => f (a, us)) (r >>= f) := by
  constructor
  · intro hfits
    obtain ⟨a, ha, rfl⟩ := hr.1 hfits
    exact ⟨a, ha, rfl⟩
  · intro hnot
    obtain ⟨ts, rfl⟩ := hr.2 hnot
    exact ⟨ts, rfl⟩

end Yields

/-! ### Words at the front -/

/-- The words are those of the tokens of `ts` in front of `rest`. -/
def Starts (ts : List Token) (ws : List Word) (rest : List Token) : Prop :=
  ∃ us, ts = us ++ rest ∧ us.map Token.word = ws

section Starts

variable {ts rest : List Token} {w : Word} {ws vs : List Word}

theorem starts_nil : Starts ts [] rest ↔ ts = rest := by
  simp [Starts]

theorem starts_cons :
    Starts ts (w :: ws) rest ↔ ∃ t us, ts = t :: us ∧ t.word = w ∧ Starts us ws rest := by
  constructor
  · rintro ⟨us, rfl, h⟩
    obtain ⟨t, us, rfl, ht, hus⟩ := List.map_eq_cons_iff.1 h
    exact ⟨t, us ++ rest, rfl, ht, us, rfl, hus⟩
  · rintro ⟨t, us, rfl, rfl, us, rfl, rfl⟩
    exact ⟨t :: us, rfl, rfl⟩

theorem starts_append :
    Starts ts (ws ++ vs) rest ↔ ∃ us, Starts ts ws us ∧ Starts us vs rest := by
  constructor
  · rintro ⟨us, rfl, h⟩
    obtain ⟨us₁, us₂, rfl, h₁, h₂⟩ := List.map_eq_append_iff.1 h
    exact ⟨us₂ ++ rest, ⟨us₁, List.append_assoc .., h₁⟩, us₂, rfl, h₂⟩
  · rintro ⟨us, ⟨us₁, rfl, rfl⟩, us₂, rfl, rfl⟩
    exact ⟨us₁ ++ us₂, (List.append_assoc ..).symm, List.map_append⟩

theorem Starts.length_le (h : Starts ts ws rest) : rest.length ≤ ts.length := by
  obtain ⟨us, rfl, -⟩ := h
  simp

/-- A word of one spelling at the front. -/
theorem starts_fixed {k : Kind} (h : Starts ts (.fixed k :: ws) rest) :
    ∃ t us, ts = t :: us ∧ t.kind = k ∧ Starts us ws rest := by
  obtain ⟨t, us, rfl, ht, hus⟩ := starts_cons.1 h
  exact ⟨t, us, rfl, congrArg Word.kind ht, hus⟩

/-- A word with a text of its own at the front. -/
theorem starts_text {k : Kind} {text : String} (hk : k.keepsText)
    (h : Starts ts (⟨k, text⟩ :: ws) rest) :
    ∃ t us, ts = t :: us ∧ t.kind = k ∧ t.text = text ∧ Starts us ws rest := by
  obtain ⟨t, us, rfl, ht, hus⟩ := starts_cons.1 h
  have hkind : t.kind = k := congrArg Word.kind ht
  have htext := congrArg Word.text ht
  refine ⟨t, us, rfl, hkind, ?_, hus⟩
  simpa [Token.word, Word.of, hkind, hk] using htext

end Starts

/-- The next token, if there is one, is of a kind with the property `p`. -/
def Next (p : Kind → Prop) (ts : List Token) : Prop := ∀ t ∈ ts.head?, p t.kind

theorem next_cons {p : Kind → Prop} {t : Token} {ts : List Token} (h : p t.kind) :
    Next p (t :: ts) := by
  simpa [Next] using h

/-- The next token does not continue a name. -/
def EndsName : List Token → Prop := Next fun k => k ≠ .dot ∧ k ≠ .leftParen

/-- The next token does not continue an expression of the `k` tightest tiers. -/
def Stops (k : Nat) : List Token → Prop :=
  Next fun kind => (kind ≠ .dot ∧ kind ≠ .leftParen) ∧ kind ≠ .keyword .IS ∧
    ∀ op ∈ BinaryOp.ofKind? kind, k < tierOf op

theorem Stops.endsName {k : Nat} {ts : List Token} (h : Stops k ts) : EndsName ts :=
  fun t ht => (h t ht).1

theorem Stops.mono {j k : Nat} {ts : List Token} (h : Stops k ts) (hjk : j ≤ k) : Stops j ts :=
  fun t ht => ⟨(h t ht).1, (h t ht).2.1, fun op hop => Nat.lt_of_le_of_lt hjk ((h t ht).2.2 op hop)⟩

/-- The kinds of token that no expression goes on with. -/
def endsExpr (k : Kind) : Bool :=
  k != .dot && k != .leftParen && k != .keyword .IS && (BinaryOp.ofKind? k).isNone

/-- No expression goes on with a token of such a kind. -/
theorem stops_cons {k : Nat} {t : Token} {ts : List Token} (h : endsExpr t.kind) :
    Stops k (t :: ts) := by
  simp only [endsExpr, Bool.and_eq_true, bne_iff_ne, Option.isNone_iff_eq_none] at h
  exact next_cons ⟨h.1.1, h.1.2, by simp [h.2]⟩

/-! ### Items of lists -/

section Lists

variable {α : Type}

/-- The rule reads the tree `x` from its words up to positions, if `stops` holds of what is left and
the levels suffice. -/
def Completes (rule : Rule α) (leaves : α → List Leaf) (shape : α → α) (fits : α → Prop)
    (stops : List Token → Prop) (x : α) : Prop :=
  ∀ ⦃ts rest⦄, Starts ts ((leaves x).map Leaf.word) rest → stops rest →
    Exact (fun y => shape y = shape x) (fits x) rest (rule ts)

variable {item : Rule α} {leaves : α → List Leaf} {shape : α → α} {fits : α → Prop}
  {stops : List Token → Prop}

/-- An item is followed by a comma, or by what is behind the list. -/
theorem stops_of_starts_items (hcomma : ∀ t us, t.kind = .comma → stops (t :: us)) {xs : List α}
    {ts rest : List Token}
    (hstarts : Starts ts ((xs.flatMap fun x => .comma :: leaves x).map Leaf.word) rest)
    (hstops : stops rest) : stops ts := by
  cases xs with
  | nil => exact starts_nil.1 hstarts ▸ hstops
  | cons x xs =>
    rw [List.flatMap_cons, List.cons_append, List.map_cons] at hstarts
    obtain ⟨t, us, rfl, ht, -⟩ := starts_fixed hstarts
    exact hcomma t us ht

theorem commaItems_complete (hcomma : ∀ t us, t.kind = .comma → stops (t :: us)) (xs : List α)
    (hitem : ∀ x ∈ xs, Completes item leaves shape fits stops x) {ts rest : List Token}
    (hstarts : Starts ts ((xs.flatMap fun x => .comma :: leaves x).map Leaf.word) rest)
    (hstops : stops rest) (hrest : Next (· ≠ .comma) rest) :
    Exact (fun ys => ys.map shape = xs.map shape) (∀ x ∈ xs, fits x) rest (commaItems item ts) := by
  induction xs generalizing ts with
  | nil =>
    have hts := starts_nil.1 hstarts
    subst hts
    have hrun : commaItems item ts = .ok ([], ts) := by
      cases ts with
      | nil => rw [commaItems]
      | cons t us => rw [commaItems, if_neg (hrest t rfl)]
    rw [hrun]
    exact .of_good rfl (by simp)
  | cons x xs ih =>
    rw [List.forall_mem_cons] at hitem
    rw [List.flatMap_cons, List.cons_append, List.map_cons, List.map_append] at hstarts
    obtain ⟨t, us, rfl, ht, hus⟩ := starts_fixed hstarts
    obtain ⟨vs, hx, hxs⟩ := starts_append.1 hus
    have hvs : stops vs := stops_of_starts_items hcomma hxs hstops
    rw [commaItems, if_pos ht]
    refine (((hitem.1 hx hvs).bind _).trans fun y hy => ?_).congr List.forall_mem_cons.symm
    dsimp only
    rw [dif_pos hx.length_le]
    refine ((ih hitem.2 hxs).bind _).map fun ys hys => ⟨y :: ys, ?_, rfl⟩
    rw [List.map_cons, List.map_cons, hy, hys]

theorem commaList_complete (hcomma : ∀ t us, t.kind = .comma → stops (t :: us))
    (xs : NonemptyList α) (hitem : ∀ x ∈ xs.toList, Completes item leaves shape fits stops x)
    {ts rest : List Token}
    (hstarts : Starts ts ((Leaf.list leaves xs.toList).map Leaf.word) rest) (hstops : stops rest)
    (hrest : Next (· ≠ .comma) rest) :
    Exact (fun ys => ys.map shape = xs.map shape) (∀ x ∈ xs.toList, fits x) rest
      (commaList item ts) := by
  obtain ⟨x, xs⟩ := xs
  simp only [NonemptyList.toList, List.forall_mem_cons] at hitem ⊢
  simp only [NonemptyList.toList, Leaf.list, List.map_append] at hstarts
  obtain ⟨vs, hx, hxs⟩ := starts_append.1 hstarts
  have hvs : stops vs := stops_of_starts_items hcomma hxs hstops
  refine ((hitem.1 hx hvs).bind _).trans fun y hy => ?_
  refine ((commaItems_complete hcomma xs hitem.2 hxs hstops hrest).bind _).map fun ys hys =>
    ⟨⟨y, ys⟩, ?_, rfl⟩
  simp only [NonemptyList.map, hy, hys]

end Lists

/-! ### Climbing the tiers -/

/-- An expression is read by the rule for the `k` tightest tiers. -/
def TierCompletes (n k : Nat) (e : Expr) : Prop :=
  Completes (tier (nullTest (unary n)) k) Expr.leaves Expr.shape (·.nesting ≤ n) (Stops k) e

/-- An expression in front of a chain of tier `k + 1` is read, and the loop for the chain goes on
from it. -/
def Climbs (n k : Nat) (e : Expr) : Prop :=
  ∀ ⦃ts rest⦄, Starts ts (e.leaves.map Leaf.word) rest → Stops k rest →
    Yields (fun y => y.shape = e.shape) (e.nesting ≤ n)
      (fun y => chainFrom (tier (nullTest (unary n)) k) (k + 1) y rest)
      (tier (nullTest (unary n)) (k + 1) ts)

section Tiers

variable {n k : Nat} {e : Expr}

theorem climbs_of_tierCompletes (h : TierCompletes n k e) : Climbs n k e :=
  fun _ _ hstarts hstops => (h hstarts hstops).bind _

/-- A chain ends where no operator of its tier follows. -/
theorem chainFrom_of_stops {operand : Rule Expr} {x : Expr} {ts : List Token} (h : Stops k ts) :
    chainFrom operand k x ts = .ok (x, ts) := by
  cases ts with
  | nil => rw [chainFrom]
  | cons t ts =>
    rw [chainFrom]
    split
    · rfl
    · next op hop =>
      have hlt : k < tierOf op := (h t rfl).2.2 op hop
      rw [if_neg (by omega)]

theorem tierCompletes_of_climbs (h : Climbs n k e) : TierCompletes n (k + 1) e :=
  fun _ _ hstarts hstops => (h hstarts (hstops.mono k.le_succ)).map fun y hy =>
    ⟨y, hy, chainFrom_of_stops hstops⟩

theorem tierCompletes_of_le {j : Nat} (h : TierCompletes n j e) (hjk : j ≤ k) :
    TierCompletes n k e := by
  induction hjk with
  | refl => exact h
  | step _ ih => exact tierCompletes_of_climbs (climbs_of_tierCompletes ih)

/-- A binary expression of tier `k + 1`: its left side is in front of the chain, and the loop reads
the operator and the right side. -/
theorem climbs_binary {x y : Expr} {p : Nat} {op : BinaryOp} (hop : tierOf op = k + 1)
    (hx : Climbs n k x) (hy : TierCompletes n k y) : Climbs n k (.binary x p op y) := by
  intro ts rest hstarts hstops
  rw [Expr.leaves, List.map_append] at hstarts
  obtain ⟨us, hxs, hstarts⟩ := starts_append.1 hstarts
  obtain ⟨t, vs, rfl, ht, hys⟩ := starts_fixed hstarts
  have hkind : BinaryOp.ofKind? t.kind = some op := ht ▸ op.ofKind?_kind
  -- No tighter tier goes on with the operator, so the left side ends in front of it.
  have hnext : Stops k (t :: vs) := by
    refine next_cons ⟨?_, ?_, ?_⟩
    · rw [ht]
      cases op <;> decide
    · rw [ht]
      cases op <;> decide
    · rw [hkind]
      simp [hop]
  refine ((hx hxs hnext).trans fun x' hx' => ?_).congr Expr.nesting_binary_le_iff.symm
  rw [chainFrom]
  simp only [hkind]
  rw [if_pos hop]
  refine ((hy hys hstops).bind _).map fun y' hy' => ⟨.binary x' t.pos op y', ?_, ?_⟩
  · rw [Expr.shape_binary, Expr.shape_binary, hx', hy']
  · exact dif_pos hys.length_le

end Tiers

/-- All that is proved of an expression by induction on it. -/
structure Complete (e : Expr) : Prop where
  operand : e.isOperand → ∀ n, Completes (unary n) Expr.leaves Expr.shape (·.nesting ≤ n) EndsName e
  tier : ∀ {n k}, e.level ≤ k → TierCompletes n k e
  climbs : ∀ {n k}, e.level ≤ k + 1 → Climbs n k e

/-- It is enough to read an expression that is not binary without operators around it. -/
theorem complete_of_tier_zero {e : Expr}
    (hoperand : e.isOperand →
      ∀ n, Completes (unary n) Expr.leaves Expr.shape (·.nesting ≤ n) EndsName e)
    (h : ∀ n, TierCompletes n 0 e) : Complete e where
  operand := hoperand
  tier _ := tierCompletes_of_le (h _) (Nat.zero_le _)
  climbs _ := climbs_of_tierCompletes (tierCompletes_of_le (h _) (Nat.zero_le _))

/-- Without a test for null behind it an operand is read as such. -/
theorem nullTest_complete {e : Expr} {n : Nat}
    (h : Completes (unary n) Expr.leaves Expr.shape (·.nesting ≤ n) EndsName e) :
    TierCompletes n 0 e := by
  intro ts rest hstarts hstops
  refine ((h hstarts hstops.endsName).bind _).map fun y hy => ⟨y, hy, ?_⟩
  cases rest with
  | nil => rfl
  | cons t rest => exact if_neg (hstops t rfl).2.1

theorem complete_of_operand {e : Expr}
    (h : ∀ n, Completes (unary n) Expr.leaves Expr.shape (·.nesting ≤ n) EndsName e) : Complete e :=
  complete_of_tier_zero (fun _ => h) fun n => nullTest_complete (h n)

theorem complete_binary {x y : Expr} {p : Nat} {op : BinaryOp}
    (hroot : (Expr.binary x p op y).RootCanonical) (hx : Complete x) (hy : Complete y) :
    Complete (.binary x p op y) := by
  obtain ⟨hxlevel, hylevel⟩ := Expr.rootCanonical_binary_iff.1 hroot
  have hlevel : (Expr.binary x p op y).level = tierOf op := rfl
  obtain ⟨j, hj⟩ : ∃ j, tierOf op = j + 1 := Nat.exists_eq_add_one.2 (tierOf_pos op)
  rw [hj] at hxlevel hylevel hlevel
  have hclimbs : ∀ n, Climbs n j (.binary x p op y) := fun n =>
    climbs_binary hj (hx.climbs hxlevel) (hy.tier (Nat.le_of_lt_succ hylevel))
  have htier : ∀ {n k}, j + 1 ≤ k → TierCompletes n k (.binary x p op y) := fun hk =>
    tierCompletes_of_le (tierCompletes_of_climbs (hclimbs _)) hk
  refine ⟨(fun h => nomatch h), fun hk => htier (hlevel ▸ hk), fun {n k} hk => ?_⟩
  rw [hlevel] at hk
  -- In front of a chain of its own tier it is a part of the chain, in front of others an operand.
  rcases Nat.eq_or_lt_of_le hk with heq | hlt
  · cases heq
    exact hclimbs n
  · exact climbs_of_tierCompletes (htier (Nat.le_of_lt_succ hlt))

theorem complete_isNull {x : Expr} {p q : Nat} (hoperand : x.isOperand) (hx : Complete x) :
    Complete (.isNull x p q) := by
  refine complete_of_tier_zero (fun h => nomatch h) ?_
  intro n ts rest hstarts hstops
  rw [Expr.leaves, List.map_append] at hstarts
  obtain ⟨us, hxs, hstarts⟩ := starts_append.1 hstarts
  obtain ⟨t, vs, rfl, ht, hstarts⟩ := starts_fixed hstarts
  obtain ⟨u, ws, rfl, hu, hstarts⟩ := starts_fixed hstarts
  have hrest := starts_nil.1 hstarts
  subst hrest
  have hends : EndsName (t :: u :: ws) := next_cons (by rw [ht]; decide)
  refine ((hx.operand hoperand n hxs hends).bind _).map fun x' hx' =>
    ⟨.isNull x' t.pos u.pos, ?_, ?_⟩
  · rw [Expr.shape_isNull, Expr.shape_isNull, hx']
  · simp only [ht, if_true, keyword, token, hu]
    rfl

/-! ### Operands -/

/-- The rule for the operand of a prefix operator, if `n` levels may be entered. -/
def signed : Nat → Rule Expr
  | 0 => tooDeep
  | n + 1 => unary n

theorem unary_eq (n : Nat) : unary n = unaryWith (signed n) (expression n) := by
  cases n <;> rfl

/-- Without a prefix operator an operand is read as such. -/
theorem unary_of_not_sign {n : Nat} {t : Token} {ts : List Token}
    (h : UnaryOp.ofKind? t.kind = none) : unary n (t :: ts) = primary (expression n) (t :: ts) := by
  rw [unary_eq, unaryWith]
  simp only [h]

theorem tooDeep_yields {α : Type} {good : Expr → Prop} {fits : Prop}
    {next : Expr → Except Refusal α} (f : Expr × List Token → Except Refusal α) (ts : List Token)
    (h : ¬fits) : Yields good fits next (tooDeep ts >>= f) :=
  ⟨fun hfits => absurd hfits h, fun _ => ⟨ts, rfl⟩⟩

theorem complete_unary {x : Expr} {p : Nat} {op : UnaryOp} (hoperand : x.isOperand)
    (hx : Complete x) : Complete (.unary p op x) := by
  refine complete_of_operand ?_
  intro n ts rest hstarts hends
  obtain ⟨t, us, rfl, ht, hxs⟩ := starts_fixed hstarts
  rw [unary_eq, unaryWith]
  simp only [show UnaryOp.ofKind? t.kind = some op from ht ▸ op.ofKind?_kind]
  cases n with
  | zero =>
    -- There is no level left for the operand.
    exact tooDeep_yields _ us (by simp [Expr.nesting])
  | succ n =>
    refine (((hx.operand hoperand n hxs hends).bind _).map fun x' hx' =>
      ⟨.unary t.pos op x', ?_, rfl⟩).congr ?_
    · rw [Expr.shape_unary, Expr.shape_unary, hx']
    · rw [Expr.nesting_unary_le_iff, Nat.lt_succ_iff]

/-- The kinds of token that an expression starts with. -/
def startsExpr : Kind → Bool
  | .ident | .integer | .real | .string | .star | .plus | .minus | .leftParen
  | .keyword .CASE => true
  | _ => false

/-- No expression is without words. -/
theorem exists_leaves_eq_cons (e : Expr) :
    ∃ l ls, e.leaves = l :: ls ∧ startsExpr l.word.kind := by
  induction e using Expr.childInduction with
  | step e ih =>
    cases e with
    | column q n => cases q <;> exact ⟨_, _, rfl, rfl⟩
    | literal p k t => exact ⟨_, _, rfl, by cases k <;> rfl⟩
    | wildcard | paren => exact ⟨_, _, rfl, rfl⟩
    | unary p op x => exact ⟨_, _, rfl, by cases op <;> rfl⟩
    | binary x p op y =>
      obtain ⟨l, ls, hls, hl⟩ := ih x (by simp [Expr.children])
      exact ⟨l, _, by rw [Expr.leaves, hls]; rfl, hl⟩
    | call f l args r => exact ⟨_, _, Expr.leaves_call .., rfl⟩
    | case p key first others otherwise q => exact ⟨_, _, Expr.leaves_case .., rfl⟩
    | isNull x p q =>
      obtain ⟨l, ls, hls, hl⟩ := ih x (by simp [Expr.children])
      exact ⟨l, _, by rw [Expr.leaves, hls]; rfl, hl⟩

/-- The first token of an expression. -/
theorem starts_expr {e : Expr} {ts rest : List Token}
    (h : Starts ts (e.leaves.map Leaf.word) rest) :
    ∃ t us, ts = t :: us ∧ startsExpr t.kind := by
  obtain ⟨l, ls, hls, hl⟩ := exists_leaves_eq_cons e
  rw [hls, List.map_cons] at h
  obtain ⟨t, us, rfl, ht, -⟩ := starts_cons.1 h
  exact ⟨t, us, rfl, by rw [← t.kind_word, ht]; exact hl⟩

theorem startsWith_eq_false {k : Kind} {t : Token} {ts : List Token} (ht : startsExpr t.kind)
    (hk : startsExpr k = false) : startsWith k (t :: ts) = false := by
  rw [startsWith, beq_eq_false_iff_ne]
  intro heq
  rw [heq, hk] at ht
  cases ht

theorem token_of_kind {k : Kind} {t : Token} {ts : List Token} (h : t.kind = k) :
    token k (t :: ts) = .ok (t.pos, ts) := if_pos h

theorem keyword_of_kind {k : Keyword} {t : Token} {ts : List Token} (h : t.kind = .keyword k) :
    keyword k (t :: ts) = .ok (t.pos, ts) := if_pos h

theorem identifier_of_kind {t : Token} {ts : List Token} (h : t.kind = .ident) :
    identifier (t :: ts) = .ok (⟨t.pos, t.text⟩, ts) := if_pos h

/-- An expression is read as one inside another, if `n` levels may be entered for it. -/
def InnerCompletes (n : Nat) (e : Expr) : Prop :=
  Completes (expression n) Expr.leaves Expr.shape (·.nesting < n) (Stops tierCount) e

theorem Complete.inner {e : Expr} (h : Complete e) (n : Nat) : InnerCompletes n e := by
  intro ts rest hstarts hstops
  cases n with
  | zero => exact ⟨fun hfits => absurd hfits (Nat.not_lt_zero _), fun _ => ⟨ts, rfl⟩⟩
  | succ n => exact (h.tier e.level_le_tierCount hstarts hstops).congr Nat.lt_succ_iff.symm

/-- A word that is an operand by itself. -/
theorem exact_of_leaf {n : Nat} {rest : List Token} {e e' : Expr} (hnesting : e.nesting = 0)
    (hshape : e'.shape = e.shape) :
    Exact (fun y => y.shape = e.shape) (e.nesting ≤ n) rest (.ok (e', rest)) := by
  exact .of_good hshape (by simp [hnesting])

theorem complete_column (q : Option Name) (name : Name) : Complete (.column q name) := by
  refine complete_of_operand ?_
  intro n ts rest hstarts hends
  cases q with
  | none =>
    obtain ⟨t, us, rfl, ht, htext, hstarts⟩ := starts_text (k := .ident) rfl hstarts
    have hrest := starts_nil.1 hstarts
    subst hrest
    rw [unary_of_not_sign (by rw [ht]; rfl), primary]
    simp only [ht]
    have hrun : afterName (expression n) ⟨t.pos, t.text⟩ us =
        .ok (.column none ⟨t.pos, t.text⟩, us) := by
      cases us with
      | nil => rfl
      | cons u us =>
        unfold afterName
        dsimp only
        rw [if_neg (hends u rfl).1, if_neg (hends u rfl).2]
    rw [hrun]
    exact exact_of_leaf rfl (by simp [Expr.shape_column, Name.shape, htext])
  | some table =>
    obtain ⟨t, us, rfl, ht, htext, hstarts⟩ := starts_text (k := .ident) rfl hstarts
    obtain ⟨u, vs, rfl, hu, hstarts⟩ := starts_fixed hstarts
    obtain ⟨v, ws, rfl, hv, hvtext, hstarts⟩ := starts_text (k := .ident) rfl hstarts
    have hrest := starts_nil.1 hstarts
    subst hrest
    rw [unary_of_not_sign (by rw [ht]; rfl), primary]
    simp only [ht]
    have hrun : afterName (expression n) ⟨t.pos, t.text⟩ (u :: v :: ws) =
        .ok (.column (some ⟨t.pos, t.text⟩) ⟨v.pos, v.text⟩, ws) := by
      unfold afterName
      dsimp only
      rw [if_pos hu, identifier_of_kind hv]
      rfl
    rw [hrun]
    exact exact_of_leaf rfl (by simp [Expr.shape_column, Name.shape, htext, hvtext])

theorem complete_literal (p : Nat) (k : LiteralKind) (text : String) :
    Complete (.literal p k text) := by
  refine complete_of_operand ?_
  intro n ts rest hstarts hends
  obtain ⟨t, us, rfl, ht, htext, hstarts⟩ := starts_text (by cases k <;> rfl) hstarts
  have hrest := starts_nil.1 hstarts
  subst hrest
  have hrun : unary n (t :: us) = .ok (.literal t.pos k t.text, us) := by
    rw [unary_of_not_sign (by rw [ht]; cases k <;> rfl), primary]
    simp only [ht]
    cases k <;> rfl
  rw [hrun]
  exact exact_of_leaf rfl (by rw [Expr.shape_literal, Expr.shape_literal, htext])

theorem complete_wildcard (p : Nat) : Complete (.wildcard p) := by
  refine complete_of_operand ?_
  intro n ts rest hstarts hends
  obtain ⟨t, us, rfl, ht, hstarts⟩ := starts_fixed hstarts
  have hrest := starts_nil.1 hstarts
  subst hrest
  have hrun : unary n (t :: us) = .ok (.wildcard t.pos, us) := by
    rw [unary_of_not_sign (by rw [ht]; rfl), primary]
    simp only [ht]
  rw [hrun]
  exact exact_of_leaf rfl rfl

theorem complete_paren {x : Expr} {l r : Nat} (hx : ∀ n, InnerCompletes n x) :
    Complete (.paren l x r) := by
  refine complete_of_operand ?_
  intro n ts rest hstarts hends
  rw [Expr.leaves, List.map_cons, List.map_append] at hstarts
  obtain ⟨t, us, rfl, ht, hstarts⟩ := starts_fixed hstarts
  obtain ⟨vs, hxs, hstarts⟩ := starts_append.1 hstarts
  obtain ⟨v, ws, rfl, hv, hstarts⟩ := starts_fixed hstarts
  have hrest := starts_nil.1 hstarts
  subst hrest
  rw [unary_of_not_sign (by rw [ht]; rfl), primary]
  simp only [ht]
  obtain ⟨u, us, rfl, hu⟩ := starts_expr hxs
  rw [afterParen, if_neg (by rw [startsWith_eq_false hu rfl]; exact Bool.false_ne_true)]
  have hstops : Stops tierCount (v :: ws) := stops_cons (by rw [hv]; rfl)
  refine (((hx n hxs hstops).bind _).map fun x' hx' => ⟨.paren t.pos x' v.pos, ?_, ?_⟩).congr
    Expr.nesting_paren_le_iff.symm
  · rw [Expr.shape_paren, Expr.shape_paren, hx']
  · dsimp only
    rw [token_of_kind hv]
    rfl

theorem complete_call {f : Name} {l r : Nat} {args : List Expr}
    (hargs : ∀ a ∈ args, ∀ n, InnerCompletes n a) : Complete (.call f l args r) := by
  refine complete_of_operand ?_
  intro n ts rest hstarts hends
  rw [Expr.leaves_call, List.map_cons, List.map_cons, List.map_append] at hstarts
  obtain ⟨t, us, rfl, ht, htext, hstarts⟩ := starts_text (k := .ident) rfl hstarts
  obtain ⟨u, us, rfl, hu, hstarts⟩ := starts_fixed hstarts
  obtain ⟨vs, hlist, hstarts⟩ := starts_append.1 hstarts
  obtain ⟨v, ws, rfl, hv, hstarts⟩ := starts_fixed hstarts
  have hrest := starts_nil.1 hstarts
  subst hrest
  have hname : Name.shape ⟨t.pos, t.text⟩ = f.shape := by rw [Name.shape, Name.shape, htext]
  rw [unary_of_not_sign (by rw [ht]; rfl), primary]
  simp only [ht]
  unfold afterName
  dsimp only
  rw [if_neg (by rw [hu]; decide), if_pos hu]
  -- The rule looks for the closing parenthesis first, and no argument starts with one.
  cases args with
  | nil =>
    have hus := starts_nil.1 hlist
    subst hus
    dsimp only
    rw [if_pos hv]
    refine Exact.of_good ?_ (by simp [Expr.nesting_call_le_iff])
    rw [Expr.shape_call, Expr.shape_call, hname]
  | cons a as =>
    obtain ⟨ys, ha, -⟩ := starts_append.1 (by simpa only [Leaf.list, List.map_append] using hlist)
    obtain ⟨y, us, rfl, hy⟩ := starts_expr ha
    have hne : y.kind ≠ .rightParen := by
      intro heq
      rw [heq] at hy
      cases hy
    dsimp only
    rw [if_neg hne]
    have hitem : ∀ x ∈ (NonemptyList.mk a as).toList,
        Completes (afterName.argument (expression n)) Expr.leaves Expr.shape (·.nesting < n)
          (Stops tierCount) x := by
      intro x hx ts rest hstarts hstops
      have hinner := hargs x hx n hstarts hstops
      obtain ⟨t, ts, rfl, -⟩ := starts_expr hstarts
      exact hinner
    refine (((commaList_complete (fun t us h => stops_cons (by rw [h]; rfl)) ⟨a, as⟩ hitem hlist
      (stops_cons (by rw [hv]; rfl)) (next_cons (by rw [hv]; decide))).bind _).map
      fun xs hxs => ⟨.call ⟨t.pos, t.text⟩ u.pos xs.toList v.pos, ?_, ?_⟩).congr
      Expr.nesting_call_le_iff.symm
    · rw [Expr.shape_call, Expr.shape_call, hname]
      exact congrArg (Expr.call _ _ · _) (congrArg NonemptyList.toList hxs)
    · dsimp only
      rw [token_of_kind hv]
      rfl

/-! ### Choices -/

section Choice

variable {n : Nat} {ts rest : List Token}

theorem caseKey_complete (key : Option Expr) (hkey : ∀ k ∈ key, InnerCompletes n k)
    (hstarts : Starts ts ((key.elim [] Expr.leaves).map Leaf.word) rest)
    (hrest : startsWith (.keyword .WHEN) rest) :
    Exact (fun k => k.map Expr.shape = key.map Expr.shape) (∀ k ∈ key, k.nesting < n) rest
      (caseKey (expression n) ts) := by
  cases key with
  | none =>
    have hts := starts_nil.1 hstarts
    subst hts
    rw [caseKey, if_pos (by simp [atCaseBranch, hrest])]
    exact .of_good rfl (by simp)
  | some key =>
    have hstops : Stops tierCount rest := by
      cases rest with
      | nil => cases hrest
      | cons t us => exact stops_cons (by rw [eq_of_beq hrest]; rfl)
    obtain ⟨t, us, rfl, ht⟩ := starts_expr (e := key) hstarts
    have hbranch : atCaseBranch (t :: us) = false := by
      rw [atCaseBranch, startsWith_eq_false ht rfl, startsWith_eq_false ht rfl,
        startsWith_eq_false ht rfl]
      rfl
    rw [caseKey, hbranch, if_neg Bool.false_ne_true]
    refine (((hkey key rfl hstarts hstops).bind _).map fun k hk => ⟨some k, ?_, rfl⟩).congr
      (by simp)
    rw [Option.map_some, Option.map_some, hk]

theorem arms_complete (as : List Arm)
    (has : ∀ a ∈ as, InnerCompletes n a.cond ∧ InnerCompletes n a.result)
    (hstarts : Starts ts ((as.flatMap Arm.leaves).map Leaf.word) rest)
    (hstops : Stops tierCount rest) (hrest : Next (· ≠ .keyword .WHEN) rest) :
    Exact (fun bs => bs.map Arm.shape = as.map Arm.shape)
      (∀ a ∈ as, a.cond.nesting < n ∧ a.result.nesting < n) rest (arms (expression n) ts) := by
  induction as generalizing ts with
  | nil =>
    have hts := starts_nil.1 hstarts
    subst hts
    have hrun : arms (expression n) ts = .ok ([], ts) := by
      cases ts with
      | nil => rw [arms]
      | cons t us => rw [arms, if_neg (hrest t rfl)]
    rw [hrun]
    exact .of_good rfl (by simp)
  | cons a as ih =>
    rw [List.forall_mem_cons] at has
    rw [List.flatMap_cons, List.map_append, Arm.leaves, List.map_cons, List.map_append] at hstarts
    obtain ⟨vs, harm, hothers⟩ := starts_append.1 hstarts
    obtain ⟨t, us, rfl, ht, harm⟩ := starts_fixed harm
    obtain ⟨ws, hcond, harm⟩ := starts_append.1 harm
    obtain ⟨u, xs, rfl, hu, hresult⟩ := starts_fixed harm
    have hvs : Stops tierCount vs := by
      cases as with
      | nil => exact starts_nil.1 hothers ▸ hstops
      | cons b bs =>
        obtain ⟨t, us, rfl, ht, -⟩ := starts_fixed hothers
        exact stops_cons (by rw [ht]; rfl)
    rw [arms, if_pos ht]
    have hthen : Stops tierCount (u :: xs) := stops_cons (by rw [hu]; rfl)
    have hlength : vs.length ≤ us.length := by
      have hcondLength := hcond.length_le
      have hresultLength := hresult.length_le
      rw [List.length_cons] at hcondLength
      omega
    refine (((has.1.1 hcond hthen).bind _).trans fun cond hcondShape => ?_).congr
      (by rw [List.forall_mem_cons, and_assoc])
    dsimp only
    rw [keyword_of_kind hu]
    refine ((has.1.2 hresult hvs).bind _).trans fun result hresultShape => ?_
    dsimp only
    rw [dif_pos hlength]
    refine ((ih has.2 hothers).bind _).map fun bs hbs =>
      ⟨⟨t.pos, cond, u.pos, result⟩ :: bs, ?_, rfl⟩
    rw [List.map_cons, List.map_cons, hbs, Arm.shape, Arm.shape, hcondShape, hresultShape]

theorem otherwise_complete (last : Option Otherwise) (hlast : ∀ o ∈ last, InnerCompletes n o.result)
    (hstarts : Starts ts ((last.elim [] Otherwise.leaves).map Leaf.word) rest)
    (hrest : startsWith (.keyword .END) rest) :
    Exact (fun o => o.map Otherwise.shape = last.map Otherwise.shape)
      (∀ o ∈ last, o.result.nesting < n) rest (otherwise (expression n) ts) := by
  obtain ⟨v, ws, rfl⟩ := List.exists_cons_of_ne_nil (l := rest) (by rintro rfl; cases hrest)
  have hv : v.kind = .keyword .END := eq_of_beq hrest
  cases last with
  | none =>
    have hts := starts_nil.1 hstarts
    subst hts
    rw [otherwise, if_neg (by rw [hv]; decide), if_pos hv]
    exact .of_good rfl (by simp)
  | some o =>
    obtain ⟨t, us, rfl, ht, hresult⟩ := starts_fixed hstarts
    rw [otherwise, if_pos ht]
    refine (((hlast o rfl hresult (stops_cons (by rw [hv]; rfl))).bind _).map fun result hshape =>
      ⟨some ⟨t.pos, result⟩, ?_, rfl⟩).congr (by simp)
    rw [Option.map_some, Option.map_some, Otherwise.shape, Otherwise.shape, hshape]

end Choice

theorem complete_case {p q : Nat} {key : Option Expr} {first : Arm} {others : List Arm}
    {last : Option Otherwise} (hkey : ∀ k ∈ key, ∀ n, InnerCompletes n k)
    (harms : ∀ a ∈ first :: others, ∀ n, InnerCompletes n a.cond ∧ InnerCompletes n a.result)
    (hlast : ∀ o ∈ last, ∀ n, InnerCompletes n o.result) :
    Complete (.case p key first others last q) := by
  refine complete_of_operand ?_
  intro n ts rest hstarts hends
  rw [Expr.leaves_case, List.map_cons, List.map_append, List.map_append, List.map_append] at hstarts
  obtain ⟨t, us, rfl, ht, hstarts⟩ := starts_fixed hstarts
  obtain ⟨ws, hstarts, hend⟩ := starts_append.1 hstarts
  obtain ⟨xs, hstarts, hstartsLast⟩ := starts_append.1 hstarts
  obtain ⟨ys, hstartsKey, hstartsArms⟩ := starts_append.1 hstarts
  obtain ⟨v, vs, rfl, hv, hend⟩ := starts_fixed hend
  have hrest := starts_nil.1 hend
  subst hrest
  -- Each part ends where the keyword of a later one stands.
  have hys : startsWith (.keyword .WHEN) ys := by
    obtain ⟨y, ys, rfl, hy, -⟩ := starts_fixed hstartsArms
    rw [startsWith, hy]
    rfl
  have hxs : ∃ x xs', xs = x :: xs' ∧ (x.kind = .keyword .ELSE ∨ x.kind = .keyword .END) := by
    cases last with
    | none => exact ⟨v, vs, starts_nil.1 hstartsLast, Or.inr hv⟩
    | some o =>
      obtain ⟨x, xs, rfl, hx, -⟩ := starts_fixed hstartsLast
      exact ⟨x, xs, rfl, Or.inl hx⟩
  obtain ⟨x, xs, rfl, hx⟩ := hxs
  have hstops : Stops tierCount (x :: xs) :=
    stops_cons (by rcases hx with hx | hx <;> rw [hx] <;> rfl)
  have hnext : Next (· ≠ .keyword .WHEN) (x :: xs) :=
    next_cons (by rcases hx with hx | hx <;> rw [hx] <;> decide)
  rw [unary_of_not_sign (by rw [ht]; rfl), primary]
  simp only [ht]
  refine (((caseKey_complete key (fun k hk => hkey k hk n) hstartsKey hys).bind _).trans
    fun key' hkey' => ?_).congr Expr.nesting_case_le_iff.symm
  refine ((arms_complete (first :: others) (fun a ha => harms a ha n) hstartsArms hstops hnext).bind
    _).trans fun branches hbranches => ?_
  obtain _ | ⟨first', others'⟩ := branches
  · cases hbranches
  obtain ⟨hfirst', hothers'⟩ := List.cons.inj hbranches
  refine ((otherwise_complete last (fun o ho => hlast o ho n) hstartsLast
    (by rw [startsWith, hv]; rfl)).bind _).map fun last' hlast' =>
      ⟨.case t.pos key' first' others' last' v.pos, ?_, ?_⟩
  · rw [Expr.shape_case, Expr.shape_case, hkey', hfirst', hothers', hlast']
  · dsimp only
    rw [keyword_of_kind hv]
    rfl

/-- Every canonical expression is read from its words. -/
theorem complete_of_canonical {e : Expr} (h : e.Canonical) : Complete e := by
  induction e using Expr.childInduction with
  | step e ih =>
    cases e with
    | column q name => exact complete_column q name
    | literal p k text => exact complete_literal p k text
    | wildcard p => exact complete_wildcard p
    | unary p op x =>
      obtain ⟨hoperand, hx⟩ := Expr.canonical_unary.1 h
      exact complete_unary hoperand (ih x (by simp [Expr.children]) hx)
    | binary x p op y =>
      obtain ⟨hroot, hx, hy⟩ := Expr.canonical_binary.1 h
      exact complete_binary hroot (ih x (by simp [Expr.children]) hx)
        (ih y (by simp [Expr.children]) hy)
    | call f l args r =>
      have hargs := Expr.canonical_call.1 h
      exact complete_call fun a ha => (ih a ha (hargs a ha)).inner
    | case p key first others last q =>
      obtain ⟨hkey, harms, hlast⟩ := Expr.canonical_case.1 h
      obtain ⟨ihkey, iharms, ihlast⟩ := Expr.forall_children_case.1 ih
      refine complete_case (fun k hk => (ihkey k hk (hkey k hk)).inner) (fun a ha n => ⟨?_, ?_⟩)
        fun o ho => (ihlast o ho (hlast o ho)).inner
      · exact ((iharms a ha).1 (harms a ha).1).inner n
      · exact ((iharms a ha).2 (harms a ha).2).inner n
    | isNull x p q =>
      obtain ⟨hoperand, hx⟩ := Expr.canonical_isNull.1 h
      exact complete_isNull hoperand (ih x (by simp [Expr.children]) hx)
    | paren l x r =>
      have hx := Expr.canonical_paren.1 h
      exact complete_paren (ih x (by simp [Expr.children]) hx).inner

/-- A canonical expression is read from its words if it nests less than `n` levels deep, and
otherwise refused for that. -/
theorem expression_complete {e : Expr} (h : e.Canonical) (n : Nat) : InnerCompletes n e :=
  (complete_of_canonical h).inner n

end Grammar

end SqlFormatter
