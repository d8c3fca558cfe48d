import Mathlib.Algebra.GroupWithZero.Nat
import Mathlib.Algebra.Order.BigOperators.Group.List
import Mathlib.Algebra.Order.Group.Nat
import SqlFormatter.Proofs.Grammar.Neighbours
import SqlFormatter.Proofs.Layout.Respelling
import SqlFormatter.Proofs.Statement.Node

/-!
# SqlFormatter.Proofs.Layout.NullTests

Tests for null that are operands of prefix operators or of other tests.

The layout adds no parentheses around such a test, though a test binds looser than a prefix
operator.

* `Expr.carried` has the prefix operators carried through the tests. No layout tells it from the
  expression itself (`unseen_carryRoot`), so a text is read as the one if it is read as the other.
  If an operator was carried, then it is another expression, up to positions, signs and parentheses:
  there are fewer tests below prefix operators (`signedTests_carried`).
* `nullTestsApart_of_testedOnce`: a test of a test is no expression of the grammar, because no word
  IS stands behind a word NULL in one.
* `parseText_layout_iff_nullTestsApart` is the main result.
-/

namespace SqlFormatter

namespace Expr

/-! ### Prefix operators inside the tests -/

/-- The prefix operator before the expression, carried through the tests for null at its root. -/
def carry (p : Nat) (op : UnaryOp) : Expr → Expr
  | isNull x q r => isNull (carry p op x) q r
  | e => unary p op e

/-- The expression, with a prefix operator at its root carried through tests for null. -/
def carryRoot : Expr → Expr
  | unary p op x => carry p op x
  | e => e

/-- The expression, with all its prefix operators carried through tests for null. -/
def carried (e : Expr) : Expr := e.rebuild carryRoot

section Carry

variable {p : Nat} {op : UnaryOp} {x : Expr}

theorem carry_of_not_nullTest (h : x.isNullTest = false) : carry p op x = unary p op x := by
  cases x with
  | isNull => cases h
  | _ => rfl

theorem binaryOp?_carry (p : Nat) (op : UnaryOp) (x : Expr) : (carry p op x).binaryOp? = none := by
  cases x <;> rfl

theorem text_carry (style : Style) (p : Nat) (op : UnaryOp) (x : Expr) :
    (carry p op x).text style = (unary p op x).text style := by
  fun_induction carry p op x with
  | case1 x q r ih =>
    have hbinary : (carry p op x).isBinary = false := by rw [isBinary, binaryOp?_carry]; rfl
    -- The test is no binary expression, so no parentheses are added on either side.
    show parenthesizedIf (carry p op x).isBinary ((carry p op x).text style) ++ " " ++
        style.keyword .IS ++ " " ++ style.keyword .NULL =
      op.word ++ (parenthesizedIf x.isBinary (x.text style) ++ " " ++ style.keyword .IS ++ " " ++
        style.keyword .NULL)
    rw [hbinary, ih, text]
    simp only [parenthesizedIf, Bool.false_eq_true, if_false, String.append_assoc]
  | case2 => rfl

theorem leaves_carry (p : Nat) (op : UnaryOp) (x : Expr) :
    (carry p op x).leaves = (unary p op x).leaves := by
  fun_induction carry p op x with
  | case1 x q r ih =>
    show (carry p op x).leaves ++ _ = (unary p op x).leaves ++ _
    rw [ih]
  | case2 => rfl

end Carry

/-- No layout shows whether a prefix operator stands outside a test for null or inside. -/
theorem unseen_carryRoot : Unseen carryRoot where
  text_eq style e := by
    cases e with
    | unary p op x => exact text_carry style p op x
    | _ => rfl
  binaryOp?_eq e := by
    cases e with
    | unary p op x => exact binaryOp?_carry p op x
    | _ => rfl
  binary_eq x p op y := ⟨p, rfl⟩

theorem carried_eq (e : Expr) : e.carried = (e.mapChildren carried).carryRoot :=
  rebuild_eq carryRoot e

/-- The tokens of an expression are the same if those of its children are. -/
theorem leaves_mapChildren {f : Expr → Expr} {e : Expr}
    (h : ∀ c ∈ e.children, (f c).leaves = c.leaves) : (e.mapChildren f).leaves = e.leaves := by
  cases e with
  | column | literal | wildcard => rfl
  | unary | binary | isNull | paren => simp_all [children, mapChildren, leaves]
  | call g l args r =>
    have hargs : Leaf.list (fun x => (f x).leaves) args = Leaf.list leaves args :=
      Leaf.list_congr h
    rw [mapChildren, leaves_call, leaves_call, Leaf.list_map, hargs]
  | case p key first others otherwise q =>
    obtain ⟨hkey, harms, hlast⟩ := forall_children_case.1 h
    have harms : ((first :: others).map (Arm.map f)).flatMap Arm.leaves =
        (first :: others).flatMap Arm.leaves := by
      rw [List.flatMap_map]
      refine List.flatMap_congr fun a ha => ?_
      obtain ⟨hcond, hresult⟩ := harms a ha
      rw [Arm.leaves, Arm.leaves, Arm.map, hcond, hresult]
    rw [mapChildren, leaves_case, leaves_case, ← List.map_cons, harms]
    cases key <;> cases otherwise <;> simp_all [Otherwise.map, Otherwise.leaves]

theorem leaves_carried (e : Expr) : e.carried.leaves = e.leaves := by
  induction e using childInduction with
  | step e ih =>
    have hroot : ∀ e : Expr, e.carryRoot.leaves = e.leaves := fun e => by
      cases e with
      | unary p op x => exact leaves_carry p op x
      | _ => rfl
    rw [carried_eq, hroot, leaves_mapChildren ih]

/-! ### No test is below a prefix operator any more -/

theorem nullTestsUnsigned_carry {p : Nat} {op : UnaryOp} {x : Expr} (h : x.NullTestsUnsigned) :
    (carry p op x).NullTestsUnsigned := by
  fun_induction carry p op x with
  | case1 x q r ih =>
    have hx := (nullTestsUnsigned_iff.1 h).2 x (by simp [children])
    exact nullTestsUnsigned_iff.2 ⟨rfl, by simpa [children] using ih hx⟩
  | case2 x htest =>
    refine nullTestsUnsigned_iff.2 ⟨?_, by simpa [children] using h⟩
    cases x with
    | isNull y q r => exact absurd rfl (htest y q r)
    | _ => rfl

theorem nullTestsUnsigned_carried (e : Expr) : e.carried.NullTestsUnsigned := by
  induction e using childInduction with
  | step e ih =>
    have hchildren : ∀ c ∈ (e.mapChildren carried).children, c.NullTestsUnsigned := by
      rw [children_mapChildren, List.forall_mem_map]
      exact ih
    rw [carried_eq]
    generalize e.mapChildren carried = e' at hchildren
    cases e' with
    | unary p op x => exact nullTestsUnsigned_carry (hchildren x (by simp [children]))
    | _ => exact nullTestsUnsigned_iff.2 ⟨rfl, hchildren⟩

/-- Where there is none in the first place, nothing is carried. -/
theorem carried_of_nullTestsUnsigned {e : Expr} (h : e.NullTestsUnsigned) : e.carried = e := by
  induction e using childInduction with
  | step e ih =>
    obtain ⟨hroot, hchildren⟩ := nullTestsUnsigned_iff.1 h
    have hsame : e.mapChildren carried = e :=
      (mapChildren_congr fun c hc => ih c hc (hchildren c hc)).trans e.mapChildren_id
    rw [carried_eq, hsame]
    cases e with
    | unary p op x => exact carry_of_not_nullTest hroot
    | _ => rfl

/-! ### Tests below prefix operators, counted -/

/-- How many tests for null there are in the expression. -/
def tests (e : Expr) : Nat := e.nodes.countP isNullTest

/-- How many tests for null there are below the prefix operator at the root, if it is one. -/
def testsBelowRoot : Expr → Nat
  | unary _ _ x => x.tests
  | _ => 0

/-- How many tests for null there are below the prefix operators of the expression. A test counts
once for each of them. -/
def signedTests (e : Expr) : Nat := (e.nodes.map testsBelowRoot).sum

theorem tests_eq (e : Expr) :
    e.tests = (if e.isNullTest then 1 else 0) + (e.children.map tests).sum := by
  rw [tests, nodes_eq, List.countP_cons, List.countP_flatMap, Nat.add_comm]
  rfl

theorem signedTests_eq (e : Expr) :
    e.signedTests = e.testsBelowRoot + (e.children.map signedTests).sum := by
  rw [signedTests, nodes_eq, List.map_cons, List.sum_cons, List.map_flatMap, List.flatMap_def,
    List.sum_flatten, List.map_map]
  rfl

/-- A change of roots that keeps the tests, and those below prefix operators. -/
structure KeepsTests (f : Expr → Expr) : Prop where
  all (e : Expr) : (f e).tests = e.tests
  signed (e : Expr) : (f e).signedTests = e.signedTests

section Keeps

variable {f : Expr → Expr} {e : Expr}

theorem tests_mapChildren (h : ∀ c ∈ e.children, (f c).tests = c.tests) :
    (e.mapChildren f).tests = e.tests := by
  have hroot : (e.mapChildren f).isNullTest = e.isNullTest := by cases e <;> rfl
  rw [tests_eq, tests_eq e, hroot, children_mapChildren, List.map_map]
  exact congrArg (_ + List.sum ·) (List.map_congr_left h)

theorem testsBelowRoot_mapChildren (h : ∀ c ∈ e.children, (f c).tests = c.tests) :
    (e.mapChildren f).testsBelowRoot = e.testsBelowRoot := by
  cases e with
  | unary p op x => exact h x (by simp [children])
  | _ => rfl

theorem signedTests_mapChildren (h : ∀ c ∈ e.children, (f c).tests = c.tests) :
    (e.mapChildren f).signedTests =
      e.testsBelowRoot + (e.children.map fun c => (f c).signedTests).sum := by
  rw [signedTests_eq, testsBelowRoot_mapChildren h, children_mapChildren, List.map_map]
  rfl

theorem tests_rebuild (h : ∀ e, (f e).tests = e.tests) (e : Expr) :
    (e.rebuild f).tests = e.tests := by
  induction e using childInduction with
  | step e ih => rw [rebuild_eq, h, tests_mapChildren ih]

theorem KeepsTests.signedTests_rebuild (h : KeepsTests f) (e : Expr) :
    (e.rebuild f).signedTests = e.signedTests := by
  induction e using childInduction with
  | step e ih =>
    rw [rebuild_eq, h.signed, signedTests_mapChildren fun c _ => tests_rebuild h.all c,
      signedTests_eq e, List.map_congr_left ih]

end Keeps

theorem tests_isNull (x : Expr) (p q : Nat) : (isNull x p q).tests = x.tests + 1 := by
  rw [tests_eq]
  simp [isNullTest, children, Nat.add_comm]

theorem tests_unary (p : Nat) (op : UnaryOp) (x : Expr) : (unary p op x).tests = x.tests := by
  rw [tests_eq]
  simp [isNullTest, children]

theorem signedTests_isNull (x : Expr) (p q : Nat) :
    (isNull x p q).signedTests = x.signedTests := by
  rw [signedTests_eq]
  simp [testsBelowRoot, children]

theorem signedTests_unary (p : Nat) (op : UnaryOp) (x : Expr) :
    (unary p op x).signedTests = x.tests + x.signedTests := by
  rw [signedTests_eq]
  simp [testsBelowRoot, children]

theorem keepsTests_unplaced : KeepsTests unplaced := by
  have hchildren : ∀ e : Expr, e.unplaced.children = e.children := fun e => by
    cases e with
    | case p key first others otherwise q =>
      have harm : ∀ a : Arm, Arm.parts { a with pos := nowhere, thenPos := nowhere } = a.parts :=
        fun _ => rfl
      cases otherwise <;> simp [unplaced, children, List.flatMap_map, harm]
    | _ => rfl
  have htest : ∀ e : Expr, e.unplaced.isNullTest = e.isNullTest := fun e => by cases e <;> rfl
  have hbelow : ∀ e : Expr, e.unplaced.testsBelowRoot = e.testsBelowRoot := fun e => by
    cases e <;> rfl
  constructor <;> intro e
  · rw [tests_eq, tests_eq e, hchildren, htest]
  · rw [signedTests_eq, signedTests_eq e, hchildren, hbelow]

/-- A number has no tests in it. -/
theorem keepsTests_mergeSign : KeepsTests mergeSign := by
  constructor <;> intro e <;> rcases e.mergeSign_cases with h | ⟨p, x, k, text, rfl, hx, h⟩ <;>
    rw [h]
  all_goals
    obtain ⟨q, rfl, -⟩ := unsigned?_eq_some hx
    rfl

theorem keepsTests_dropParen : KeepsTests dropParen where
  all e := by
    cases e with
    | paren l x r =>
      rw [tests_eq (paren l x r)]
      simp [dropParen, isNullTest, children]
    | _ => rfl
  signed e := by
    cases e with
    | paren l x r =>
      rw [signedTests_eq (paren l x r)]
      simp [dropParen, testsBelowRoot, children]
    | _ => rfl

/-- What an expression is up to positions, signs and parentheses tells its tests below prefix
operators. -/
theorem signedTests_bare (e : Expr) :
    e.shape.mergeSigns.eraseParens.signedTests = e.signedTests := by
  rw [eraseParens, keepsTests_dropParen.signedTests_rebuild, mergeSigns,
    keepsTests_mergeSign.signedTests_rebuild, shape, keepsTests_unplaced.signedTests_rebuild]

theorem tests_carry (p : Nat) (op : UnaryOp) (x : Expr) : (carry p op x).tests = x.tests := by
  fun_induction carry p op x with
  | case1 x q r ih => rw [tests_isNull, tests_isNull, ih]
  | case2 x => exact tests_unary p op x

/-- Each test that a prefix operator is carried through is not below it any more. -/
theorem signedTests_carry (p : Nat) (op : UnaryOp) (x : Expr) :
    (carry p op x).signedTests ≤ (unary p op x).signedTests ∧
      ((carry p op x).signedTests = (unary p op x).signedTests → x.isNullTest = false) := by
  fun_induction carry p op x with
  | case1 x q r ih =>
    rw [signedTests_unary] at ih ⊢
    rw [signedTests_isNull, signedTests_isNull, tests_isNull]
    exact ⟨by omega, fun h => by omega⟩
  | case2 x htest =>
    refine ⟨Nat.le_refl _, fun _ => ?_⟩
    cases x with
    | isNull y q r => exact absurd rfl (htest y q r)
    | _ => rfl

theorem tests_carried (e : Expr) : e.carried.tests = e.tests := by
  refine tests_rebuild (fun e => ?_) e
  cases e with
  | unary p op x => exact (tests_carry p op x).trans (tests_unary p op x).symm
  | _ => rfl

/-- There are fewer tests below prefix operators where operators are carried, unless there were none
right below one. -/
theorem signedTests_carried (e : Expr) :
    e.carried.signedTests ≤ e.signedTests ∧
      (e.carried.signedTests = e.signedTests → e.NullTestsUnsigned) := by
  induction e using childInduction with
  | step e ih =>
    have hroot : (e.mapChildren carried).carryRoot.signedTests ≤
          (e.mapChildren carried).signedTests ∧
        ((e.mapChildren carried).carryRoot.signedTests = (e.mapChildren carried).signedTests →
          e.signsNullTest = false) := by
      cases e with
      | unary p op x =>
        obtain ⟨hle, heq⟩ := signedTests_carry p op x.carried
        refine ⟨hle, fun h => ?_⟩
        have htest := heq h
        cases x with
        | isNull y q r => cases htest
        | _ => rfl
      | _ => exact ⟨Nat.le_refl _, fun _ => rfl⟩
    have hsum := signedTests_mapChildren (f := carried) (e := e) fun c _ => tests_carried c
    have hwhole := signedTests_eq e
    have hle : (e.children.map fun c => c.carried.signedTests).sum ≤
        (e.children.map signedTests).sum := List.sum_le_sum fun c hc => (ih c hc).1
    rw [carried_eq]
    refine ⟨by omega, fun h => nullTestsUnsigned_iff.2 ⟨hroot.2 (by omega), fun c hc => ?_⟩⟩
    -- The children cannot have fewer either.
    by_contra hc'
    have hlt : c.carried.signedTests < c.signedTests :=
      Nat.lt_of_le_of_ne (ih c hc).1 fun heq => hc' ((ih c hc).2 heq)
    have hsumlt : (e.children.map fun c => c.carried.signedTests).sum <
        (e.children.map signedTests).sum :=
      List.sum_lt_sum _ _ (fun c hc => (ih c hc).1) ⟨c, hc, hlt⟩
    omega

/-! ### Tests of tests -/

theorem mem_nodes_inParensIf (needed : Bool) (e : Expr) : e ∈ (e.inParensIf needed).nodes := by
  cases needed with
  | false => exact e.mem_nodes_self
  | true =>
    have hchild : e ∈ (paren nowhere e nowhere).children := by simp [children]
    exact mem_nodes_of_mem_children hchild e.mem_nodes_self

/-- A child is written inside its parent, unless it is a number that gets a sign. -/
theorem written_mem_nodes {e c : Expr} (hc : c ∈ e.children) :
    c.written ∈ e.written.nodes ∨ c.unsigned?.isSome := by
  have hchild : ∀ {x y : Expr}, y ∈ x.children → c.written ∈ y.nodes → c.written ∈ x.nodes :=
    mem_nodes_of_mem_children
  cases e with
  | unary p op x =>
    obtain rfl : c = x := by simpa [children] using hc
    cases hunsigned : c.unsigned? with
    | some number => exact Or.inr rfl
    | none =>
      have hoperand : (c.written.inParensIf c.isBinary).unsigned? = none := by
        rw [written, ← mergeSigns_inParensIf, unsigned?_mergeSigns, unsigned?_inParensIf, hunsigned]
      rw [written_unary, mergeSign_of_not_unsigned hoperand]
      exact Or.inl (hchild (by simp [children]) (mem_nodes_inParensIf c.isBinary _))
  | binary x p op y =>
    rw [written_binary]
    rcases List.mem_pair.1 hc with rfl | rfl
    · exact Or.inl (hchild (by simp [children]) (mem_nodes_inParensIf (c.isLooserThan op) _))
    · exact Or.inl (hchild (by simp [children]) (mem_nodes_inParensIf (c.isNotTighterThan op) _))
  | isNull x p q =>
    obtain rfl : c = x := by simpa [children] using hc
    rw [written_isNull]
    exact Or.inl (hchild (by simp [children]) (mem_nodes_inParensIf c.isBinary _))
  | _ =>
    rw [written_of_not_operator rfl]
    refine Or.inl (hchild (y := c.written) ?_ (mem_nodes_self _))
    rw [children_mapChildren]
    exact List.mem_map_of_mem hc

/-- What is written without a test of a test has none. -/
theorem nullTestsApart_of_testedOnce {e : Expr} (hunsigned : e.NullTestsUnsigned)
    (h : TestedOnce e.written.yield) : e.NullTestsApart := by
  induction e using childInduction with
  | step e ih =>
    obtain ⟨hroot, hchildren⟩ := nullTestsUnsigned_iff.1 hunsigned
    refine nullTestsApart_iff.2 ⟨?_, fun c hc => ?_⟩
    · cases e with
      | unary p op x => exact hroot
      | isNull x p q =>
        show x.isNullTest = false
        cases x with
        | isNull y p' q' =>
          -- The words of both tests stand behind each other.
          rw [written_isNull, written_isNull] at h
          have hwords : [Word.fixed (.keyword .NULL), .fixed (.keyword .IS)] <:+:
              (isNull (isNull (y.written.inParensIf y.isBinary) p' q') p q).yield :=
            ⟨(y.written.inParensIf y.isBinary).yield ++ [.fixed (.keyword .IS)],
              [.fixed (.keyword .NULL)], by simp [yield, leaves, Leaf.fixed]⟩
          exact absurd ⟨rfl, rfl⟩ (List.isChain_pair.1 (h.of_infix hwords))
        | _ => rfl
      | _ => trivial
    · rcases written_mem_nodes hc with hmem | hnumber
      · exact ih c hc (hchildren c hc) (h.of_infix ((leaves_infix_of_mem_nodes hmem).map _))
      · -- A number has no tests in it.
        obtain ⟨⟨k, text⟩, hnumber⟩ := Option.isSome_iff_exists.1 hnumber
        obtain ⟨p, rfl, -⟩ := unsigned?_eq_some hnumber
        exact nullTestsApart_iff.2 ⟨trivial, List.forall_mem_nil _⟩

end Expr

/-! ### Statements -/

namespace Statement

variable {s : Statement} {style : Style}

/-- The statement, with all its prefix operators carried through tests for null. -/
def carried (s : Statement) : Statement := s.mapExprs Expr.carried

theorem layout_carried (s : Statement) (style : Style) : s.carried.layout style = s.layout style :=
  layout_mapExprs (Expr.unseen_carryRoot.text_rebuild style)
    (Expr.unseen_carryRoot.conditionLines_rebuild style) s

theorem leaves_mapExprs {f : Expr → Expr} (h : ∀ e, (f e).leaves = e.leaves) (s : Statement) :
    (s.mapExprs f).leaves = s.leaves := by
  have hselect : SelectClause.leaves
      ⟨s.select.pos, s.select.columns.map fun c => { c with expr := f c.expr }⟩ =
        s.select.leaves := by
    rw [SelectClause.leaves, NonemptyList.toList_map, Leaf.list_map, SelectClause.leaves]
    exact congrArg _ (Leaf.list_congr fun c _ => by rw [Column.leaves, Column.leaves, h])
  have hby : ∀ (k : Keyword) (c : Option ByClause),
      (c.map fun b => { b with items := b.items.map f }).elim [] (ByClause.leaves k) =
        c.elim [] (ByClause.leaves k) := by
    intro k c
    cases c with
    | none => rfl
    | some b =>
      simp only [Option.map_some, Option.elim_some, ByClause.leaves, NonemptyList.toList_map,
        Leaf.list_map, h]
  have hwhere : (s.whereClause.map fun w => { w with cond := f w.cond }).elim []
      WhereClause.leaves = s.whereClause.elim [] WhereClause.leaves := by
    cases s.whereClause with
    | none => rfl
    | some w => simp only [Option.map_some, Option.elim_some, WhereClause.leaves, h]
  simp only [mapExprs, Statement.leaves, hselect, hby, hwhere]

theorem Legible.carried (h : s.Legible) : s.carried.Legible where
  leaves := leaves_mapExprs Expr.leaves_carried s ▸ h.leaves
  comments := h.comments

theorem nullTestsUnsigned_carried (s : Statement) : s.carried.NullTestsUnsigned := by
  rw [NullTestsUnsigned, carried, exprs_mapExprs, List.forall_mem_map]
  exact fun e _ => e.nullTestsUnsigned_carried

theorem map_signedTests_bareForm (s : Statement) :
    s.bareForm.1.exprs.map Expr.signedTests = s.exprs.map Expr.signedTests := by
  rw [bareForm, normalForm, exprs_mapExprs, exprs_mapExprs, exprs_shape]
  simp only [List.map_map, Function.comp_def, Expr.signedTests_bare]

/-- The statement is another one if an operator was carried. -/
theorem nullTestsUnsigned_of_bareForm (h : s.carried.bareForm = s.bareForm) :
    s.NullTestsUnsigned := by
  have hcounts := s.carried.map_signedTests_bareForm.symm.trans (h ▸ s.map_signedTests_bareForm)
  rw [carried, exprs_mapExprs, List.map_map, List.map_inj_left] at hcounts
  exact fun e he => e.signedTests_carried.2 (hcounts e he)

theorem nullTestsApart_of_testedOnce (hunsigned : s.NullTestsUnsigned)
    (h : TestedOnce s.written.yield) : s.NullTestsApart := by
  intro e he
  have hmem : e.written ∈ s.written.exprs := by
    rw [written, exprs_mapExprs]
    exact List.mem_map_of_mem he
  exact Expr.nullTestsApart_of_testedOnce (hunsigned e he)
    (h.of_infix ((leaves_infix_of_mem_exprs _ hmem).map _))

theorem NullTestsApart.canonical_written (h : s.NullTestsApart) : s.written.Canonical := by
  rw [Canonical, written, exprs_mapExprs, List.forall_mem_map]
  exact fun e he => Expr.canonical_written (h e he)

end Statement

/-- A layout that is read is read as the statement with its prefix operators carried through its
tests, and that one has no test of a test. -/
theorem carried_of_parseText_layout {s : Statement} (hlegible : s.Legible) {style : Style}
    (hnewline : style.newline = "\n") {file file' : File} {s' : Statement}
    (hsize : file.size = byteLength (s.layout style).toList)
    (h : parseText file (s.layout style) = .ok (.ok s', file')) :
    s.carried.NullTestsApart ∧ s'.bareForm = s.carried.bareForm := by
  have hlayout := s.layout_carried style
  obtain ⟨scanner, tokens, hscanner, htokens, hwords, hcomments⟩ :=
    s.carried.tokenize_layout (.of_newline hnewline) hlegible.carried s.nullTestsUnsigned_carried
      (hlayout ▸ hsize)
  obtain ⟨scanner', tokens', hscanner', htokens', hread⟩ := readFrom_of_parseText h
  obtain rfl : scanner = scanner' := Except.ok.inj (hscanner.symm.trans (hlayout ▸ hscanner'))
  obtain rfl : tokens = tokens' := Except.ok.inj (htokens.symm.trans htokens')
  -- Both statements have the words of the text.
  have hyield : s'.yield = s.carried.written.yield := by
    rw [← withoutSemicolon_of_words hread.words]
    refine withoutSemicolon_of_words ?_
    cases hsemicolon : style.semicolon with
    | true => exact Or.inr (by rw [hwords, hsemicolon]; rfl)
    | false => exact Or.inl (by rw [hwords, hsemicolon]; exact List.append_nil _)
  have hapart : s.carried.NullTestsApart := Statement.nullTestsApart_of_testedOnce
    s.nullTestsUnsigned_carried (hyield ▸ Statement.testedOnce_yield hread.canonical)
  have hshape := Grammar.shape_eq_of_yield_eq hread.canonical hapart.canonical_written hyield
  have htexts : s'.commentTexts = s.carried.commentTexts := by
    rw [← s.carried.commentTextsBefore_nil, ← hcomments, ← hread.comments_eq, List.map_flatMap]
    rfl
  exact ⟨hapart, Statement.bareForm_of_written hshape htexts⟩

/-- The layout of a tree whose names, literals and comments are tokens by themselves is read as that
tree, up to parentheses, positions, the grouping of comments and signs that merge with their
numbers, if and only if no test for null is the operand of a prefix operator or of another test.
Otherwise it is read as the tree with its prefix operators carried through the tests, or refused: it
is refused if that tree has a test of a test. -/
theorem parseText_layout_iff_nullTestsApart {s : Statement}
    (hleaves : ∀ l ∈ s.leaves, l.word.kind.keepsText → LexesAlone l.word.kind l.word.text)
    (hcomments : ∀ g ∈ s.comments, ∀ c ∈ g.toList, LexesAlone .comment c.text)
    (hnesting : s.written.nesting ≤ Grammar.maxNesting) {style : Style}
    (hnewline : style.newline = "\n") {file : File}
    (hsize : file.size = byteLength (s.layout style).toList) :
    ∃ result file', parseText file (s.layout style) = .ok (result, file') ∧
      ((∃ s', result = .ok s' ∧ s'.bareForm = s.bareForm) ↔ s.NullTestsApart) ∧
      ∀ s', result = .ok s' → s.carried.NullTestsApart ∧ s'.bareForm = s.carried.bareForm := by
  have hlegible : s.Legible := ⟨fun l hl hkeeps => (hleaves l hl hkeeps).standalone hkeeps,
    fun g hg c hc => (hcomments g hg c hc).standalone rfl⟩
  have hlayout := s.layout_carried style
  obtain ⟨scanner, tokens, hscanner, -⟩ :=
    s.carried.tokenize_layout (.of_newline hnewline) hlegible.carried s.nullTestsUnsigned_carried
      (hlayout ▸ hsize)
  obtain ⟨file', hresult⟩ := parseText_of_ofText (hlayout ▸ hscanner)
  have hcarried : ∀ s', ({ scanner } : Parser).parse.1 = .ok s' →
      s.carried.NullTestsApart ∧ s'.bareForm = s.carried.bareForm := fun s' hs' =>
    carried_of_parseText_layout hlegible hnewline hsize (hs' ▸ hresult)
  refine ⟨_, file', hresult, ⟨?_, fun hapart => ?_⟩, hcarried⟩
  · rintro ⟨s', hs', hbare⟩
    obtain ⟨hapart, hbare'⟩ := hcarried s' hs'
    -- No operator was carried, so the statement is the one with its operators carried.
    have hunsigned := Statement.nullTestsUnsigned_of_bareForm (hbare'.symm.trans hbare)
    intro e he
    have hmem : e ∈ s.carried.exprs := by
      rw [Statement.carried, Statement.exprs_mapExprs]
      exact List.mem_map.2 ⟨e, he, Expr.carried_of_nullTestsUnsigned (hunsigned e he)⟩
    exact hapart e hmem
  · obtain ⟨result, _, hlegal, hfits, -⟩ :=
      parseText_layout_of_legible hlegible hapart hnewline hsize
    obtain ⟨s', rfl, hshape, htexts⟩ := hfits hnesting
    have hsame := (Prod.mk.inj (Except.ok.inj (hresult.symm.trans hlegal))).1
    exact ⟨s', hsame, Statement.bareForm_of_written hshape htexts⟩

/-- A statement with one column and one table. -/
def statementOf (e : Expr) : Statement :=
  ⟨⟨0, ⟨⟨e, none⟩, []⟩⟩, ⟨0, ⟨⟨⟨0, "a"⟩, none⟩, []⟩⟩, none, none, none, []⟩

/-- A test in parentheses below a prefix operator, and one without. -/
theorem parseText_layout_iff_nullTestsApart_paren :
    let a : Expr := .column none ⟨0, "a"⟩
    let s := statementOf (.unary 0 .neg (.paren 0 (.isNull a 0 0) 0))
    ∃ result file', parseText ⟨0, "q.sql", 1, byteLength (s.layout {}).toList, []⟩ (s.layout {}) =
        .ok (result, file') ∧
      ((∃ s', result = .ok s' ∧ s'.bareForm = s.bareForm) ↔ s.NullTestsApart) ∧
      ∀ s', result = .ok s' → s.carried.NullTestsApart ∧ s'.bareForm = s.carried.bareForm := by
  intro a s
  have hleaves : ∀ l ∈ s.leaves, l.word.kind.keepsText → LexesAlone l.word.kind l.word.text := by
    have hwords : ∀ l ∈ s.leaves, l.word.kind.keepsText → l.word = ⟨.ident, "a"⟩ := by decide
    intro l hl hkeeps
    rw [hwords l hl hkeeps]
    exact lexesAlone_a
  have hcomments : ∀ g ∈ s.comments, ∀ c ∈ g.toList, LexesAlone .comment c.text := nofun
  have hnewline : ({} : Style).newline = "\n" := rfl
  have hsize : ∀ n, (File.mk 0 "q.sql" 1 n []).size = n := fun _ => rfl
  exact parseText_layout_iff_nullTestsApart hleaves hcomments (by decide) hnewline (hsize _)

/-- The negation of a test is read as a test of the negation, and a test of a test is refused. -/
theorem layout_nullTest_misread :
    let a : Expr := .column none ⟨0, "a"⟩
    let negated := statementOf (.unary 0 .neg (.isNull a 0 0))
    let twice := statementOf (.isNull (.isNull a 0 0) 0 0)
    (negated.layout {} = "SELECT\n    -a IS NULL\nFROM\n    a\n;" ∧
      ∃ s' file', parseText ⟨0, "q.sql", 1, 34, []⟩ "SELECT\n    -a IS NULL\nFROM\n    a\n;" =
        .ok (.ok s', file') ∧ s'.bareForm ≠ negated.bareForm) ∧
    twice.layout {} = "SELECT\n    a IS NULL IS NULL\nFROM\n    a\n;" ∧
      ∃ e file', parseText ⟨0, "q.sql", 1, 41, []⟩
        "SELECT\n    a IS NULL IS NULL\nFROM\n    a\n;" = .ok (.error e, file') := by
  intro a negated twice
  have hlayout : negated.layout {} = "SELECT\n    -a IS NULL\nFROM\n    a\n;" := by decide +kernel
  obtain ⟨s', file', hfile, hsigned⟩ : ∃ s' file', parseText ⟨0, "q.sql", 1, 34, []⟩
      "SELECT\n    -a IS NULL\nFROM\n    a\n;" = .ok (.ok s', file') ∧
      s'.exprs.map Expr.signedTests = [0] := exists_statement (by decide +kernel)
  refine ⟨⟨hlayout, s', file', hfile, fun hbare => ?_⟩, by decide +kernel, ?_⟩
  · -- In the tree the test is below the minus.
    have hcounts := s'.map_signedTests_bareForm
    rw [hbare, negated.map_signedTests_bareForm, hsigned] at hcounts
    revert hcounts
    decide
  · have hrefused : ((parseText ⟨0, "q.sql", 1, 41, []⟩
        "SELECT\n    a IS NULL IS NULL\nFROM\n    a\n;").toOption.map fun r => r.1.isOk) =
      some false := by decide +kernel
    revert hrefused
    cases parseText ⟨0, "q.sql", 1, 41, []⟩ "SELECT\n    a IS NULL IS NULL\nFROM\n    a\n;" with
    | error v => exact nofun
    | ok r =>
      obtain ⟨e | s, file'⟩ := r
      · exact fun _ => ⟨e, file', rfl⟩
      · exact nofun

end SqlFormatter
