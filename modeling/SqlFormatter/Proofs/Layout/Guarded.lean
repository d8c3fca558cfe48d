import SqlFormatter.Layout.Expression
import SqlFormatter.Proofs.Expr.Normal

/-!
# SqlFormatter.Proofs.Layout.Guarded

The tree that the layout of an expression stands for.

* `Expr.guarded` has a node for each pair of parentheses that the layout adds. It is canonical, if
  no test for null is an operand that parentheses would be needed for and are not added
  (`Expr.NullTestsApart`), and a canonical expression is not changed.
* `Expr.written` is that tree as it is read, with signs merged.
-/

namespace SqlFormatter

namespace Expr

/-- The expression in parentheses, if they are needed. -/
def inParensIf (needed : Bool) (e : Expr) : Expr := if needed then paren nowhere e nowhere else e

/-- The expression with the parentheses around the operands of its root that the layout adds. -/
def guardRoot : Expr → Expr
  | unary p op x => unary p op (x.inParensIf x.isBinary)
  | binary x p op y =>
    binary (x.inParensIf (x.isLooserThan op)) p op (y.inParensIf (y.isNotTighterThan op))
  | isNull x p q => isNull (x.inParensIf x.isBinary) p q
  | e => e

/-- The expression with all the parentheses that the layout adds. -/
def guarded (e : Expr) : Expr := e.rebuild guardRoot

/-- The expression as it is read from its layout. -/
def written (e : Expr) : Expr := e.guarded.mergeSigns

/-- Whether the expression is a test for null. -/
def isNullTest : Expr → Bool
  | isNull .. => true
  | _ => false

/-- The root is neither a prefix operator nor a test for null with a test for null as its
operand. -/
def RootNullTestsApart : Expr → Prop
  | unary _ _ x | isNull x _ _ => x.isNullTest = false
  | _ => True

instance : (e : Expr) → Decidable e.RootNullTestsApart
  | unary _ _ x | isNull x _ _ => instDecidableEqBool x.isNullTest false
  | column .. | literal .. | wildcard _ | binary .. | call .. | case .. | paren .. =>
    instDecidableTrue

/-- No test for null is the operand of a prefix operator or of a test for null. -/
def NullTestsApart (e : Expr) : Prop := ∀ x ∈ e.nodes, x.RootNullTestsApart

instance (e : Expr) : Decidable e.NullTestsApart :=
  inferInstanceAs (Decidable (∀ x ∈ e.nodes, x.RootNullTestsApart))

theorem nullTestsApart_iff {e : Expr} :
    e.NullTestsApart ↔ e.RootNullTestsApart ∧ ∀ c ∈ e.children, c.NullTestsApart :=
  forall_nodes_iff

/-- Whether the root is a prefix operator with a test for null as its operand. -/
def signsNullTest : Expr → Bool
  | unary _ _ x => x.isNullTest
  | _ => false

/-- No test for null is the operand of a prefix operator. It may be the operand of another test. -/
def NullTestsUnsigned (e : Expr) : Prop := ∀ x ∈ e.nodes, x.signsNullTest = false

theorem nullTestsUnsigned_iff {e : Expr} :
    e.NullTestsUnsigned ↔ e.signsNullTest = false ∧ ∀ c ∈ e.children, c.NullTestsUnsigned :=
  forall_nodes_iff

theorem NullTestsApart.unsigned {e : Expr} (h : e.NullTestsApart) : e.NullTestsUnsigned := by
  intro x hx
  have hroot := h x hx
  cases x with
  | unary p op y => exact hroot
  | _ => rfl

/-! ### What a root keeps -/

theorem guarded_eq (e : Expr) : e.guarded = (e.mapChildren guarded).guardRoot :=
  rebuild_eq guardRoot e

/-- Whether the root is an operator or a test, so that the layout may add parentheses below it. -/
def isOperator : Expr → Bool
  | unary .. | binary .. | isNull .. => true
  | _ => false

theorem guarded_of_not_operator {e : Expr} (h : e.isOperator = false) :
    e.guarded = e.mapChildren guarded := by
  rw [guarded_eq]
  cases e with
  | unary | binary | isNull => cases h
  | _ => rfl

theorem mergeSigns_of_not_operator {e : Expr} (h : e.isOperator = false) :
    e.mergeSigns = e.mapChildren mergeSigns := by
  rw [mergeSigns_eq]
  cases e with
  | unary | binary | isNull => cases h
  | _ => rfl

theorem isOperator_mapChildren (f : Expr → Expr) (e : Expr) :
    (e.mapChildren f).isOperator = e.isOperator := by
  cases e <;> rfl

theorem written_of_not_operator {e : Expr} (h : e.isOperator = false) :
    e.written = e.mapChildren written := by
  rw [written, guarded_of_not_operator h,
    mergeSigns_of_not_operator (by rw [isOperator_mapChildren, h]), mapChildren_mapChildren]
  rfl

theorem binaryOp?_guarded (e : Expr) : e.guarded.binaryOp? = e.binaryOp? := by
  rw [guarded_eq]
  cases e <;> rfl

theorem isNullTest_guarded (e : Expr) : e.guarded.isNullTest = e.isNullTest := by
  rw [guarded_eq]
  cases e <;> rfl

theorem unsigned?_guarded (e : Expr) : e.guarded.unsigned? = e.unsigned? := by
  rw [guarded_eq]
  cases e <;> rfl

theorem isBinary_guarded (e : Expr) : e.guarded.isBinary = e.isBinary := by
  rw [isBinary, isBinary, binaryOp?_guarded]

theorem isLooserThan_guarded (e : Expr) (op : BinaryOp) :
    e.guarded.isLooserThan op = e.isLooserThan op := by
  rw [isLooserThan, isLooserThan, binaryOp?_guarded]

theorem isNotTighterThan_guarded (e : Expr) (op : BinaryOp) :
    e.guarded.isNotTighterThan op = e.isNotTighterThan op := by
  rw [isNotTighterThan, isNotTighterThan, binaryOp?_guarded]

theorem guarded_unary (p : Nat) (op : UnaryOp) (x : Expr) :
    (unary p op x).guarded = unary p op (x.guarded.inParensIf x.isBinary) := by
  rw [← isBinary_guarded x]
  rfl

theorem guarded_binary (x y : Expr) (p : Nat) (op : BinaryOp) :
    (binary x p op y).guarded =
      binary (x.guarded.inParensIf (x.isLooserThan op)) p op
        (y.guarded.inParensIf (y.isNotTighterThan op)) := by
  rw [← isLooserThan_guarded x, ← isNotTighterThan_guarded y]
  rfl

theorem guarded_isNull (x : Expr) (p q : Nat) :
    (isNull x p q).guarded = isNull (x.guarded.inParensIf x.isBinary) p q := by
  rw [← isBinary_guarded x]
  rfl

/-! ### Guarded trees are canonical -/

theorem isOperand_of_not {e : Expr} (hbinary : e.isBinary = false) (hnull : e.isNullTest = false) :
    e.isOperand := by
  cases e with
  | binary => cases hbinary
  | isNull => cases hnull
  | _ => rfl

/-- An operand is put in parentheses if it is binary, so it can be read as one. -/
theorem isOperand_inParensIf {e : Expr} (h : e.isNullTest = false) :
    (e.guarded.inParensIf e.isBinary).isOperand := by
  cases hbinary : e.isBinary with
  | true => rfl
  | false =>
    have hoperand : e.guarded.isOperand :=
      isOperand_of_not (by rw [isBinary_guarded, hbinary]) (by rw [isNullTest_guarded, h])
    exact hoperand

theorem canonical_inParensIf {needed : Bool} {e : Expr} :
    (e.inParensIf needed).Canonical ↔ e.Canonical := by
  cases needed with
  | true => exact canonical_paren
  | false => exact Iff.rfl

theorem precedence_le_of_not_looser {x : Expr} {op : BinaryOp} :
    ∀ o ∈ (x.guarded.inParensIf (x.isLooserThan op)).binaryOp?, op.precedence ≤ o.precedence := by
  cases hlooser : x.isLooserThan op with
  | true =>
    -- Parentheses are no operator.
    exact fun _ ho => nomatch ho
  | false =>
    intro o ho
    have ho : x.binaryOp? = some o := by
      rw [← binaryOp?_guarded]
      exact ho
    simpa [isLooserThan, ho] using hlooser

theorem precedence_lt_of_tighter {y : Expr} {op : BinaryOp} :
    ∀ o ∈ (y.guarded.inParensIf (y.isNotTighterThan op)).binaryOp?,
      op.precedence < o.precedence := by
  cases htighter : y.isNotTighterThan op with
  | true => exact fun _ ho => nomatch ho
  | false =>
    intro o ho
    have ho : y.binaryOp? = some o := by
      rw [← binaryOp?_guarded]
      exact ho
    simpa [isNotTighterThan, ho] using htighter

/-- The parentheses that the layout adds are enough, where no test for null is an operand. -/
theorem canonical_guarded {e : Expr} (h : e.NullTestsApart) : e.guarded.Canonical := by
  induction e using childInduction with
  | step e ih =>
    obtain ⟨hroot, hchildren⟩ := nullTestsApart_iff.1 h
    have ih : ∀ c ∈ e.children, c.guarded.Canonical := fun c hc => ih c hc (hchildren c hc)
    cases e with
    | unary p op x =>
      rw [guarded_unary, canonical_unary, canonical_inParensIf]
      exact ⟨isOperand_inParensIf hroot, ih x (by simp [children])⟩
    | isNull x p q =>
      rw [guarded_isNull, canonical_isNull, canonical_inParensIf]
      exact ⟨isOperand_inParensIf hroot, ih x (by simp [children])⟩
    | binary x p op y =>
      rw [guarded_binary, canonical_binary, canonical_inParensIf, canonical_inParensIf]
      exact ⟨⟨precedence_le_of_not_looser, precedence_lt_of_tighter⟩, ih x (by simp [children]),
        ih y (by simp [children])⟩
    | _ =>
      rw [guarded_of_not_operator rfl, canonical_iff, children_mapChildren, List.forall_mem_map]
      exact ⟨trivial, ih⟩

theorem canonical_written {e : Expr} (h : e.NullTestsApart) : e.written.Canonical :=
  canonical_mergeSigns (canonical_guarded h)

/-! ### Canonical trees need no parentheses -/

theorem isBinary_of_isOperand {e : Expr} (h : e.isOperand) : e.isBinary = false := by
  cases e with
  | binary => cases h
  | _ => rfl

theorem guarded_of_canonical {e : Expr} (h : e.Canonical) : e.guarded = e := by
  induction e using childInduction with
  | step e ih =>
    obtain ⟨hroot, hchildren⟩ := canonical_iff.1 h
    have ih : ∀ c ∈ e.children, c.guarded = c := fun c hc => ih c hc (hchildren c hc)
    cases e with
    | unary p op x =>
      rw [guarded_unary, ih x (by simp [children]), isBinary_of_isOperand hroot]
      rfl
    | isNull x p q =>
      rw [guarded_isNull, ih x (by simp [children]), isBinary_of_isOperand hroot]
      rfl
    | binary x p op y =>
      obtain ⟨hx, hy⟩ := hroot
      have hlooser : x.isLooserThan op = false := by
        rw [isLooserThan, Option.any_eq_false]
        intro o ho
        simpa using hx o ho
      have htighter : y.isNotTighterThan op = false := by
        rw [isNotTighterThan, Option.any_eq_false]
        intro o ho
        simpa using hy o ho
      rw [guarded_binary, ih x (by simp [children]), ih y (by simp [children]), hlooser, htighter]
      rfl
    | _ => rw [guarded_of_not_operator rfl, mapChildren_congr ih, mapChildren_id]

/-- A canonical expression is read as it is, with its signs merged. -/
theorem written_of_canonical {e : Expr} (h : e.Canonical) : e.written = e.mergeSigns := by
  rw [written, guarded_of_canonical h]

/-! ### Without parentheses -/

theorem eraseParens_eq (e : Expr) : e.eraseParens = (e.mapChildren eraseParens).dropParen :=
  rebuild_eq dropParen e

theorem eraseParens_inParensIf (needed : Bool) (e : Expr) :
    (e.inParensIf needed).mergeSigns.eraseParens = e.mergeSigns.eraseParens := by
  cases needed <;> rfl

/-- What stands behind a prefix operator may be changed inside parentheses. -/
theorem eraseParens_mergeSign_unary {p : Nat} {op : UnaryOp} {x y : Expr}
    (hunsigned : x.unsigned? = y.unsigned?) (h : x.eraseParens = y.eraseParens) :
    (unary p op x).mergeSign.eraseParens = (unary p op y).mergeSign.eraseParens := by
  cases hx : x.unsigned? with
  | none =>
    rw [mergeSign_of_not_unsigned hx, mergeSign_of_not_unsigned (hunsigned ▸ hx)]
    exact congrArg (unary p op) h
  | some number =>
    cases op with
    | plus => exact congrArg (unary p .plus) h
    | neg => rw [mergeSign_of_unsigned hx, mergeSign_of_unsigned (hunsigned ▸ hx)]

theorem unsigned?_inParensIf (e : Expr) :
    (e.guarded.inParensIf e.isBinary).unsigned? = e.unsigned? := by
  cases e with
  | binary => rfl
  | _ => exact unsigned?_guarded _

/-- The parentheses that the layout adds are the only change to the tree. -/
theorem eraseParens_written (e : Expr) : e.written.eraseParens = e.mergeSigns.eraseParens := by
  induction e using childInduction with
  | step e ih =>
    cases e with
    | unary p op x =>
      rw [written, guarded_unary, mergeSigns_unary, mergeSigns_unary]
      refine eraseParens_mergeSign_unary ?_ ?_
      · rw [unsigned?_mergeSigns, unsigned?_mergeSigns, unsigned?_inParensIf]
      · rw [eraseParens_inParensIf]
        exact ih x (by simp [children])
    | binary x p op y =>
      rw [written, guarded_binary]
      show binary (mergeSigns _).eraseParens p op (mergeSigns _).eraseParens = _
      rw [eraseParens_inParensIf, eraseParens_inParensIf]
      have hx : x.written.eraseParens = x.mergeSigns.eraseParens := ih x (by simp [children])
      have hy : y.written.eraseParens = y.mergeSigns.eraseParens := ih y (by simp [children])
      exact hx ▸ hy ▸ rfl
    | isNull x p q =>
      rw [written, guarded_isNull]
      show isNull (mergeSigns _).eraseParens p q = _
      rw [eraseParens_inParensIf]
      exact congrArg (isNull · p q) (ih x (by simp [children]))
    | _ =>
      -- Nothing is added around the children of other roots.
      rw [written_of_not_operator rfl, eraseParens_eq, mapChildren_mapChildren,
        mapChildren_congr ih, ← mapChildren_mapChildren, ← mergeSigns_of_not_operator rfl,
        ← eraseParens_eq]

end Expr

end SqlFormatter
