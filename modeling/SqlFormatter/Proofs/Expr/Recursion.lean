import Mathlib.Data.List.Forall2
import Mathlib.Logic.Function.Iterate
import SqlFormatter.Expr.Range
import SqlFormatter.Proofs.Layout.Expression

/-!
# SqlFormatter.Proofs.Expr.Recursion

How deep the functions on expressions call themselves.

* `Expr.Path` goes down from the root of an expression. The longest path over all children is the
  height of the tree.
* A `Recursion` is a function on expressions together with one level of its calls. If no path over
  these calls has more than `n` nodes, then `n` levels of calls are enough (`Recursion.within`).
* The positions where an expression starts and stops, its text, and comparing it with another one
  are such recursions.
-/

namespace SqlFormatter

/-! ### Paths -/

/-- Some nodes one below the other, from the root down, where `next` are those that may come below
a node. -/
inductive Expr.Path (next : Expr → List Expr) : Expr → List Expr → Prop where
  | root (e : Expr) : Path next e [e]
  | down {e c : Expr} {path : List Expr} (hc : c ∈ next e) (h : Path next c path) :
    Path next e (e :: path)

namespace Expr.Path

variable {next next' : Expr → List Expr} {e : Expr} {path : List Expr}

theorem mono (hnext : ∀ e, next e ⊆ next' e) (h : Path next e path) : Path next' e path := by
  induction h with
  | root e => exact .root e
  | down hc _ ih => exact .down (hnext _ hc) ih

theorem exists_cons (h : Path next e path) : ∃ below, path = e :: below := by
  cases h with
  | root => exact ⟨[], rfl⟩
  | down => exact ⟨_, rfl⟩

end Expr.Path

/-! ### Recursions -/

/-- A function on expressions that calls itself on children. -/
structure Recursion (α : Type) where
  /-- The function. -/
  value : Expr → α
  /-- One level of it, where another function stands in for the calls. -/
  step : (Expr → α) → Expr → α
  /-- What an expression has it called on. -/
  calls : Expr → List Expr
  value_eq : step value = value
  /-- The calls that are not listed make no difference. -/
  step_congr : ∀ {f g : Expr → α} {e : Expr}, (∀ c ∈ calls e, f c = g c) → step f e = step g e
  calls_subset : ∀ e, calls e ⊆ e.children

namespace Recursion

variable {α : Type} (r : Recursion α) {e : Expr} {n : Nat}

/-- With `n` levels of calls the value is found: the calls below them could return anything. -/
def Within (n : Nat) (e : Expr) : Prop := ∀ below : Expr → α, r.step^[n] below e = r.value e

/-- Each level of calls takes a path one node down. -/
theorem within (h : ∀ path, Expr.Path r.calls e path → path.length ≤ n) : r.Within n e := by
  intro below
  induction n generalizing e with
  | zero => cases h [e] (.root e)
  | succ n ih =>
    rw [Function.iterate_succ_apply', ← congrFun r.value_eq e]
    refine r.step_congr fun c hc => ih fun path hpath => ?_
    exact Nat.le_of_succ_le_succ (h (e :: path) (.down hc hpath))

/-- The position of the first byte. The first operand tells that of an operator behind it. -/
def pos : Recursion Nat where
  value := Expr.pos
  step f
    | .binary x _ _ _ => f x
    | .isNull x _ _ => f x
    | e => e.pos
  calls
    | .binary x _ _ _ => [x]
    | .isNull x _ _ => [x]
    | _ => []
  value_eq := funext fun e => by cases e <;> rfl
  step_congr {f g e} h := by cases e <;> simp_all
  calls_subset e := by cases e <;> simp [Expr.children]

/-- The position just past the last byte. The last operand tells that of an operator before it. -/
def stop : Recursion Nat where
  value := Expr.stop
  step f
    | .unary _ _ x => f x
    | .binary _ _ _ y => f y
    | e => e.stop
  calls
    | .unary _ _ x => [x]
    | .binary _ _ _ y => [y]
    | _ => []
  value_eq := funext fun e => by cases e <;> rfl
  step_congr {f g e} h := by cases e <;> simp_all
  calls_subset e := by cases e <;> simp [Expr.children]

/-! ### Texts -/

/-- One level of writing an expression on one line, where `text` stands in for the calls. -/
def textStep (style : Style) (text : Expr → String) : Expr → String
  | .unary _ op x => op.word ++ parenthesizedIf x.isBinary (text x)
  | .binary x _ op y =>
    parenthesizedIf (x.isLooserThan op) (text x) ++ " " ++ style.operator op ++ " " ++
      parenthesizedIf (y.isNotTighterThan op) (text y)
  | .call function _ args _ =>
    function.text ++ parenthesized (", ".intercalate (args.map text))
  | .case _ key first others otherwise _ =>
    style.keyword .CASE ++ key.elim "" (fun k => " " ++ text k) ++
      (String.join ((first :: others).map fun a => " " ++ style.keyword .WHEN ++ " " ++
          text a.cond ++ " " ++ style.keyword .THEN ++ " " ++ text a.result) ++
        otherwise.elim "" (fun o => " " ++ style.keyword .ELSE ++ " " ++ text o.result) ++
        (" " ++ style.keyword .END))
  | .isNull x _ _ =>
    parenthesizedIf x.isBinary (text x) ++ " " ++ style.keyword .IS ++ " " ++ style.keyword .NULL
  | .paren _ x _ => parenthesized (text x)
  | e => e.text style

theorem textStep_text (style : Style) : textStep style (Expr.text style) = Expr.text style := by
  funext e
  cases e with
  | column | literal | wildcard | unary | binary | isNull | paren => rfl
  | call f l args r => exact (Expr.text_call style f l r args).symm
  | case p key first others otherwise q =>
    have harm : Expr.textOfArm style = fun a => " " ++ style.keyword .WHEN ++ " " ++
        a.cond.text style ++ " " ++ style.keyword .THEN ++ " " ++ a.result.text style :=
      funext fun ⟨_, _, _, _⟩ => rfl
    rw [Expr.text_case, harm]
    rfl

theorem textStep_congr {style : Style} {f g : Expr → String} {e : Expr}
    (h : ∀ c ∈ e.children, f c = g c) : textStep style f e = textStep style g e := by
  cases e with
  | column | literal | wildcard => rfl
  | unary | binary | isNull | paren => simp_all [textStep, Expr.children]
  | call k l args r =>
    have hargs : args.map f = args.map g := List.map_congr_left h
    simp only [textStep, hargs]
  | case p key first others otherwise q =>
    obtain ⟨hkey, harms, hlast⟩ := Expr.forall_children_case.1 h
    simp only [textStep]
    rw [List.map_congr_left fun a ha => by rw [(harms a ha).1, (harms a ha).2]]
    cases key <;> cases otherwise <;> simp_all

/-- The expression on one line. -/
def text (style : Style) : Recursion String where
  value := Expr.text style
  step := textStep style
  calls := Expr.children
  value_eq := textStep_text style
  step_congr := textStep_congr
  calls_subset _ := List.Subset.refl _

/-! ### Comparing -/

/-- One level of comparing two arms, where `same` stands in for the calls. -/
def sameArm (same : Expr → Expr → Prop) (a a' : Arm) : Prop :=
  a.pos = a'.pos ∧ same a.cond a'.cond ∧ a.thenPos = a'.thenPos ∧ same a.result a'.result

/-- One level of comparing the last parts of two choices. -/
def sameOtherwise (same : Expr → Expr → Prop) (o o' : Otherwise) : Prop :=
  o.pos = o'.pos ∧ same o.result o'.result

/-- One level of comparing two expressions: the roots are of one form and have the same data, and
their children are the same one by one. -/
def sameStep (same : Expr → Expr → Prop) : Expr → Expr → Prop
  | .column q n, .column q' n' => q = q' ∧ n = n'
  | .literal p k t, .literal p' k' t' => p = p' ∧ k = k' ∧ t = t'
  | .wildcard p, .wildcard p' => p = p'
  | .unary p op x, .unary p' op' x' => p = p' ∧ op = op' ∧ same x x'
  | .binary x p op y, .binary x' p' op' y' => same x x' ∧ p = p' ∧ op = op' ∧ same y y'
  | .call f l args r, .call f' l' args' r' =>
    f = f' ∧ l = l' ∧ List.Forall₂ same args args' ∧ r = r'
  | .case p key first others otherwise q, .case p' key' first' others' otherwise' q' =>
    p = p' ∧ Option.Rel same key key' ∧ List.Forall₂ (sameArm same) (first :: others)
      (first' :: others') ∧ Option.Rel (sameOtherwise same) otherwise otherwise' ∧ q = q'
  | .isNull x p q, .isNull x' p' q' => same x x' ∧ p = p' ∧ q = q'
  | .paren l x r, .paren l' x' r' => l = l' ∧ same x x' ∧ r = r'
  | _, _ => False

theorem sameArm_eq : sameArm Eq = Eq := by
  funext ⟨p, cond, q, result⟩ ⟨p', cond', q', result'⟩
  simp [sameArm]

theorem sameOtherwise_eq : sameOtherwise Eq = Eq := by
  funext ⟨p, result⟩ ⟨p', result'⟩
  simp [sameOtherwise]

theorem optionRel_eq {β : Type} {a b : Option β} : Option.Rel Eq a b ↔ a = b := by
  cases a <;> cases b <;> simp

/-- Comparing level by level finds the expressions that are equal. -/
theorem sameStep_eq : sameStep Eq = Eq := by
  funext e e'
  cases e <;> cases e' <;>
    simp [sameStep, sameArm_eq, sameOtherwise_eq, optionRel_eq, and_assoc]

section Congr

variable {β γ : Type} {f g : β → γ → Prop}

theorem forall₂_congr_left {xs : List β} {ys : List γ} (h : ∀ x ∈ xs, f x = g x) :
    List.Forall₂ f xs ys ↔ List.Forall₂ g xs ys := by
  rw [List.forall₂_iff_zip, List.forall₂_iff_zip]
  refine and_congr_right fun _ => forall₂_congr fun x y => imp_congr_right fun hxy => ?_
  rw [h x (List.of_mem_zip hxy).1]

theorem optionRel_congr_left {x : Option β} {y : Option γ} (h : ∀ a ∈ x, f a = g a) :
    Option.Rel f x y ↔ Option.Rel g x y := by
  cases x <;> cases y <;> simp_all

end Congr

theorem sameStep_congr {f g : Expr → Expr → Prop} {e : Expr} (h : ∀ c ∈ e.children, f c = g c) :
    sameStep f e = sameStep g e := by
  funext e'
  cases e with
  | column | literal | wildcard => cases e' <;> rfl
  | unary | binary | isNull | paren => cases e' <;> simp_all [sameStep, Expr.children]
  | call k l args r =>
    have hargs : ∀ a ∈ args, f a = g a := h
    cases e' with
    | call => simp only [sameStep, forall₂_congr_left hargs]
    | _ => rfl
  | case p key first others otherwise q =>
    obtain ⟨hkey, harms, hlast⟩ := Expr.forall_children_case.1 h
    have harms : ∀ a ∈ first :: others, sameArm f a = sameArm g a := by
      intro a ha
      funext a'
      rw [sameArm, sameArm, (harms a ha).1, (harms a ha).2]
    have hlast : ∀ o ∈ otherwise, sameOtherwise f o = sameOtherwise g o := by
      intro o ho
      funext o'
      rw [sameOtherwise, sameOtherwise, hlast o ho]
    cases e' with
    | case =>
      simp only [sameStep, optionRel_congr_left hkey, forall₂_congr_left harms,
        optionRel_congr_left hlast]
    | _ => rfl

/-- Comparing the expression with another one. -/
def same : Recursion (Expr → Prop) where
  value := Eq
  step := sameStep
  calls := Expr.children
  value_eq := sameStep_eq
  step_congr := sameStep_congr
  calls_subset _ := List.Subset.refl _

end Recursion

end SqlFormatter
