import SqlFormatter.Grammar.Expression
import SqlFormatter.Proofs.Expr.Shape

/-!
# SqlFormatter.Proofs.Grammar.Canonical

The trees that the grammar can give: those in which no operand binds looser than its place asks for
(`Expr.Canonical`), and that do not nest deeper than the levels to be entered (`Expr.nesting`).
-/

namespace SqlFormatter

namespace Expr

/-- Whether the expression can stand after a prefix operator and before a test for null. -/
def isOperand : Expr → Bool
  | binary .. | isNull .. => false
  | _ => true

/-- What the operands of the root must be for the tree to be read from its tokens. Operators group
from the left, so the right side must bind tighter than the root. -/
def RootCanonical : Expr → Prop
  | unary _ _ x | isNull x _ _ => x.isOperand
  | binary x _ op y =>
    (∀ o ∈ x.binaryOp?, op.precedence ≤ o.precedence) ∧
      ∀ o ∈ y.binaryOp?, op.precedence < o.precedence
  | _ => True

instance : (e : Expr) → Decidable e.RootCanonical
  | unary _ _ x | isNull x _ _ => inferInstanceAs (Decidable (x.isOperand = true))
  | binary x _ op y =>
    inferInstanceAs (Decidable ((∀ o ∈ x.binaryOp?, op.precedence ≤ o.precedence) ∧
      ∀ o ∈ y.binaryOp?, op.precedence < o.precedence))
  | column .. | literal .. | wildcard _ | call .. | case .. | paren .. => instDecidableTrue

/-- No operand in the expression binds looser than its place asks for. -/
def Canonical (e : Expr) : Prop := ∀ x ∈ e.nodes, x.RootCanonical

instance (e : Expr) : Decidable e.Canonical :=
  inferInstanceAs (Decidable (∀ x ∈ e.nodes, x.RootCanonical))

theorem canonical_iff {e : Expr} :
    e.Canonical ↔ e.RootCanonical ∧ ∀ c ∈ e.children, c.Canonical := forall_nodes_iff

theorem Canonical.of_mem_nodes {e x : Expr} (h : e.Canonical) (hx : x ∈ e.nodes) : x.Canonical :=
  fun y hy => h y (mem_nodes_trans hx hy)

theorem canonical_unary {p : Nat} {op : UnaryOp} {x : Expr} :
    (unary p op x).Canonical ↔ x.isOperand ∧ x.Canonical := by
  rw [canonical_iff]
  simp [RootCanonical, children]

theorem canonical_binary {p : Nat} {op : BinaryOp} {x y : Expr} :
    (binary x p op y).Canonical ↔ (binary x p op y).RootCanonical ∧ x.Canonical ∧ y.Canonical := by
  rw [canonical_iff]
  simp [children]

theorem canonical_isNull {p q : Nat} {x : Expr} :
    (isNull x p q).Canonical ↔ x.isOperand ∧ x.Canonical := by
  rw [canonical_iff]
  simp [RootCanonical, children]

theorem canonical_paren {l r : Nat} {x : Expr} : (paren l x r).Canonical ↔ x.Canonical := by
  rw [canonical_iff]
  simp [RootCanonical, children]

theorem canonical_call {f : Name} {l r : Nat} {args : List Expr} :
    (call f l args r).Canonical ↔ ∀ a ∈ args, a.Canonical := by
  rw [canonical_iff]
  simp [RootCanonical, children]

theorem canonical_case {p q : Nat} {key : Option Expr} {first : Arm} {others : List Arm}
    {otherwise : Option Otherwise} :
    (case p key first others otherwise q).Canonical ↔
      (∀ k ∈ key, k.Canonical) ∧ (∀ a ∈ first :: others, a.cond.Canonical ∧ a.result.Canonical) ∧
        (∀ o ∈ otherwise, o.result.Canonical) := by
  rw [canonical_iff, forall_children_case]
  simp [RootCanonical]

/-! ### Nesting -/

mutual

/-- The greatest number of levels entered on a path into the expression: one for each expression
inside another construct, and one for each operand of a prefix operator. -/
def nesting : Expr → Nat
  | column .. | literal .. | wildcard _ => 0
  | unary _ _ x => x.nesting + 1
  | binary x _ _ y => max x.nesting y.nesting
  | call _ _ args _ => nestingOfList args
  | case _ key first others otherwise _ =>
    max
      (match key with
        | none => 0
        | some k => k.nesting + 1)
      (max (max (nestingOfArm first) (nestingOfArms others))
        (match otherwise with
        | none => 0
        | some ⟨_, result⟩ => result.nesting + 1))
  | isNull x _ _ => x.nesting
  | paren _ x _ => x.nesting + 1

/-- The greatest number of levels entered on a path into one of the expressions. -/
def nestingOfList : List Expr → Nat
  | [] => 0
  | e :: es => max (e.nesting + 1) (nestingOfList es)

/-- The greatest number of levels entered on a path into the arm. -/
def nestingOfArm : Arm → Nat
  | ⟨_, cond, _, result⟩ => max (cond.nesting + 1) (result.nesting + 1)

/-- The greatest number of levels entered on a path into one of the arms. -/
def nestingOfArms : List Arm → Nat
  | [] => 0
  | a :: as => max (nestingOfArm a) (nestingOfArms as)

end

theorem nestingOfList_le_iff {es : List Expr} {n : Nat} :
    nestingOfList es ≤ n ↔ ∀ e ∈ es, e.nesting < n := by
  induction es with
  | nil => simp [nestingOfList]
  | cons e es ih => rw [nestingOfList, Nat.max_le, ih, List.forall_mem_cons, Nat.succ_le_iff]

theorem nestingOfArm_le_iff {a : Arm} {n : Nat} :
    nestingOfArm a ≤ n ↔ a.cond.nesting < n ∧ a.result.nesting < n := by
  obtain ⟨p, cond, q, result⟩ := a
  rw [nestingOfArm, Nat.max_le, Nat.succ_le_iff, Nat.succ_le_iff]

theorem nestingOfArms_le_iff {as : List Arm} {n : Nat} :
    nestingOfArms as ≤ n ↔ ∀ a ∈ as, a.cond.nesting < n ∧ a.result.nesting < n := by
  induction as with
  | nil => simp [nestingOfArms]
  | cons a as ih => rw [nestingOfArms, Nat.max_le, ih, List.forall_mem_cons, nestingOfArm_le_iff]

theorem nesting_unary_le_iff {p n : Nat} {op : UnaryOp} {x : Expr} :
    (unary p op x).nesting ≤ n ↔ x.nesting < n := by
  rw [nesting, Nat.succ_le_iff]

theorem nesting_binary_le_iff {p n : Nat} {op : BinaryOp} {x y : Expr} :
    (binary x p op y).nesting ≤ n ↔ x.nesting ≤ n ∧ y.nesting ≤ n := by
  rw [nesting, Nat.max_le]

theorem nesting_call_le_iff {f : Name} {l r n : Nat} {args : List Expr} :
    (call f l args r).nesting ≤ n ↔ ∀ a ∈ args, a.nesting < n := by
  rw [nesting, nestingOfList_le_iff]

theorem nesting_case_le_iff {p q n : Nat} {key : Option Expr} {first : Arm} {others : List Arm}
    {otherwise : Option Otherwise} :
    (case p key first others otherwise q).nesting ≤ n ↔
      (∀ k ∈ key, k.nesting < n) ∧
        (∀ a ∈ first :: others, a.cond.nesting < n ∧ a.result.nesting < n) ∧
        (∀ o ∈ otherwise, o.result.nesting < n) := by
  rcases key with - | k <;> rcases otherwise with - | ⟨o, result⟩ <;>
    simp only [nesting, Nat.max_le, nestingOfArm_le_iff, nestingOfArms_le_iff, Nat.succ_le_iff,
      List.forall_mem_cons, Option.mem_def, Option.some.injEq, forall_eq', Nat.zero_le,
      reduceCtorEq, false_implies, implies_true, true_and, and_true]

theorem nesting_paren_le_iff {l r n : Nat} {x : Expr} :
    (paren l x r).nesting ≤ n ↔ x.nesting < n := by
  rw [nesting, Nat.succ_le_iff]

theorem nesting_le_of_mem_children {e c : Expr} (h : c ∈ e.children) : c.nesting ≤ e.nesting := by
  have hle := Nat.le_refl e.nesting
  cases e with
  | column | literal | wildcard => cases h
  | unary p op x =>
    obtain rfl := List.mem_singleton.1 h
    exact Nat.le_of_lt (nesting_unary_le_iff.1 hle)
  | binary x p op y =>
    obtain ⟨hx, hy⟩ := nesting_binary_le_iff.1 hle
    rcases List.mem_cons.1 h with rfl | h
    · exact hx
    · obtain rfl := List.mem_singleton.1 h
      exact hy
  | call f l args r => exact Nat.le_of_lt (nesting_call_le_iff.1 hle c h)
  | case p key first others last q =>
    obtain ⟨hkey, harms, hlast⟩ := nesting_case_le_iff.1 hle
    have hall : ∀ c ∈ (Expr.case p key first others last q).children,
        c.nesting ≤ (Expr.case p key first others last q).nesting :=
      forall_children_case.2 ⟨fun k hk => Nat.le_of_lt (hkey k hk),
        fun a ha => (harms a ha).imp Nat.le_of_lt Nat.le_of_lt,
        fun o ho => Nat.le_of_lt (hlast o ho)⟩
    exact hall c h
  | isNull x p q =>
    obtain rfl := List.mem_singleton.1 h
    exact hle
  | paren l x r =>
    obtain rfl := List.mem_singleton.1 h
    exact Nat.le_of_lt (nesting_paren_le_iff.1 hle)

theorem nesting_le_of_mem_nodes {e x : Expr} (h : x ∈ e.nodes) : x.nesting ≤ e.nesting := by
  induction e using childInduction with
  | step e ih =>
    rw [nodes_eq] at h
    rcases List.mem_cons.1 h with rfl | h
    · exact Nat.le_refl _
    · obtain ⟨c, hc, hx⟩ := List.mem_flatMap.1 h
      exact Nat.le_trans (ih c hc hx) (nesting_le_of_mem_children hc)

end Expr

namespace Statement

/-- No operand in the statement binds looser than its place asks for. -/
def Canonical (s : Statement) : Prop := ∀ e ∈ s.exprs, e.Canonical

instance (s : Statement) : Decidable s.Canonical :=
  inferInstanceAs (Decidable (∀ e ∈ s.exprs, e.Canonical))

/-- The greatest number of levels entered on a path into the statement. -/
def nesting (s : Statement) : Nat := Expr.nestingOfList s.exprs

theorem nesting_le_iff {s : Statement} {n : Nat} :
    s.nesting ≤ n ↔ ∀ e ∈ s.exprs, e.nesting < n := Expr.nestingOfList_le_iff

end Statement

end SqlFormatter
