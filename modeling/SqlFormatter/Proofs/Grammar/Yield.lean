import Mathlib.Data.List.Forall2
import SqlFormatter.Proofs.Expr.Shape

/-!
# SqlFormatter.Proofs.Grammar.Yield

The tokens that a tree stands for.

* A `Word` is what the grammar can tell of a token: the kind, and the text where tokens of the kind
  differ in it. Keywords are words without their case, and `!=` and `<>` are one word.
* A `Leaf` of a tree is a word and, but for commas and dots, the position that the tree has for it.
  `Expr.leaves` and `Statement.leaves` list them in the order of the source, and the yield of a tree
  is the words of its leaves.
* The operators among the leaves are those of the nodes (`Statement.ofNodes_of_mem_leaves`).
* `Spells ts ls`: the tokens `ts` are those of the leaves `ls`, at the positions that they name.
-/

namespace SqlFormatter

/-- Whether a tree keeps the text of tokens of the kind: such tokens differ in it by more than their
spelling. -/
def Kind.keepsText : Kind → Bool
  | ident | integer | real | string | comment => true
  | _ => false

/-- What the grammar can tell of a token. -/
structure Word where
  /-- The kind of the token. -/
  kind : Kind
  /-- Its text if tokens of the kind differ in that, otherwise nothing. -/
  text : String
  deriving DecidableEq, Repr

/-- The word of a token of the given kind and text. -/
def Word.of (kind : Kind) (text : String) : Word := ⟨kind, if kind.keepsText then text else ""⟩

/-- The word of a kind that has one spelling. -/
def Word.fixed (kind : Kind) : Word := ⟨kind, ""⟩

/-- What the grammar can tell of the token. -/
def Token.word (t : Token) : Word := .of t.kind t.text

@[simp] theorem Token.kind_word (t : Token) : t.word.kind = t.kind := rfl

/-- The kind of token that the literal is. -/
def LiteralKind.kind : LiteralKind → Kind
  | integer => .integer
  | real => .real
  | string => .string

/-- The kind of token that stands for the operator. -/
def UnaryOp.kind : UnaryOp → Kind
  | plus => .plus
  | neg => .minus

theorem UnaryOp.ofKind?_kind (op : UnaryOp) : ofKind? op.kind = some op := by cases op <;> rfl

theorem UnaryOp.kind_of_ofKind?_eq_some {k : Kind} {op : UnaryOp} (h : ofKind? k = some op) :
    op.kind = k := by
  unfold ofKind? at h
  split at h <;> cases h <;> rfl

/-! ### Leaves -/

/-- A token of a tree. -/
structure Leaf where
  /-- The position that the tree has for it. -/
  pos : Option Nat
  /-- What is told of it. -/
  word : Word
  deriving DecidableEq, Repr

namespace Leaf

/-- The token at `pos` of a kind that has one spelling. -/
def fixed (pos : Nat) (kind : Kind) : Leaf := ⟨some pos, .fixed kind⟩

/-- The token of a name. -/
def ofName (n : Name) : Leaf := ⟨some n.pos, ⟨.ident, n.text⟩⟩

/-- A dot between the parts of a name. -/
def dot : Leaf := ⟨none, .fixed .dot⟩

/-- A comma between the items of a list. -/
def comma : Leaf := ⟨none, .fixed .comma⟩

/-- The leaf is of this token. -/
def Marks (l : Leaf) (t : Token) : Prop := t.word = l.word ∧ ∀ p ∈ l.pos, p = t.pos

instance (l : Leaf) (t : Token) : Decidable (l.Marks t) := by
  unfold Marks
  infer_instance

theorem marks_fixed {t : Token} {k : Kind} (h : t.kind = k) (hk : k.keepsText = false) :
    (fixed t.pos k).Marks t := by
  subst h
  exact ⟨by simp [Token.word, Word.of, fixed, Word.fixed, hk], by simp [fixed]⟩

theorem marks_comma {t : Token} (h : t.kind = .comma) : comma.Marks t :=
  ⟨by simp [Token.word, Word.of, comma, Word.fixed, h, Kind.keepsText], by simp [comma]⟩

theorem marks_dot {t : Token} (h : t.kind = .dot) : dot.Marks t :=
  ⟨by simp [Token.word, Word.of, dot, Word.fixed, h, Kind.keepsText], by simp [dot]⟩

theorem marks_ofName {t : Token} (h : t.kind = .ident) : (ofName ⟨t.pos, t.text⟩).Marks t :=
  ⟨by simp [Token.word, Word.of, ofName, h, Kind.keepsText], by simp [ofName]⟩

theorem marks_literal {t : Token} {k : LiteralKind} (h : t.kind = k.kind) :
    (⟨some t.pos, ⟨k.kind, t.text⟩⟩ : Leaf).Marks t := by
  refine ⟨?_, by simp⟩
  rw [Token.word, h]
  cases k <;> rfl

/-- The leaves of the items, with commas between them. -/
def list {α : Type} (leaves : α → List Leaf) : List α → List Leaf
  | [] => []
  | x :: xs => leaves x ++ xs.flatMap fun y => comma :: leaves y

theorem subset_list {α : Type} {leaves : α → List Leaf} {x : α} {xs : List α} (h : x ∈ xs) :
    leaves x ⊆ list leaves xs := by
  cases xs with
  | nil => cases h
  | cons y ys =>
    rw [list]
    rcases List.mem_cons.1 h with rfl | h
    · exact List.subset_append_left ..
    · intro l hl
      exact List.mem_append_right _ (List.mem_flatMap.2 ⟨x, h, List.mem_cons_of_mem _ hl⟩)

theorem list_congr {α : Type} {f g : α → List Leaf} {xs : List α} (h : ∀ x ∈ xs, f x = g x) :
    list f xs = list g xs := by
  cases xs with
  | nil => rfl
  | cons x xs =>
    obtain ⟨hx, hxs⟩ := List.forall_mem_cons.1 h
    rw [list, list, hx, List.flatMap_congr fun y hy => congrArg (comma :: ·) (hxs y hy)]

theorem list_map {α β : Type} (leaves : β → List Leaf) (f : α → β) (xs : List α) :
    list leaves (xs.map f) = list (fun x => leaves (f x)) xs := by
  cases xs with
  | nil => rfl
  | cons x xs => rw [List.map_cons, list, list, List.flatMap_map]

/-- A comma behind each item, or before each but the first and one behind the last. -/
theorem flatMap_comma {α : Type} (leaves : α → List Leaf) (x : α) (xs : List α) :
    (x :: xs).flatMap (fun y => leaves y ++ [comma]) =
      leaves x ++ xs.flatMap (fun y => comma :: leaves y) ++ [comma] := by
  induction xs generalizing x with
  | nil => simp
  | cons y ys ih =>
    rw [List.flatMap_cons, ih]
    simp

/-- The leaves of a list with one more item. -/
theorem list_append_singleton {α : Type} (leaves : α → List Leaf) (xs : List α) (x : α) :
    list leaves (xs ++ [x]) = xs.flatMap (fun y => leaves y ++ [comma]) ++ leaves x := by
  cases xs with
  | nil => simp [list]
  | cons y ys =>
    rw [flatMap_comma]
    simp [list]

end Leaf

namespace Expr

mutual

/-- The tokens of the expression, in order. -/
def leaves : Expr → List Leaf
  | column none name => [.ofName name]
  | column (some table) name => [.ofName table, .dot, .ofName name]
  | literal p k text => [⟨some p, ⟨k.kind, text⟩⟩]
  | wildcard p => [.fixed p .star]
  | unary p op x => .fixed p op.kind :: x.leaves
  | binary x p op y => x.leaves ++ .fixed p op.kind :: y.leaves
  | call f l args r =>
    .ofName f :: .fixed l .leftParen :: (leavesOfList args ++ [.fixed r .rightParen])
  | case p key first others otherwise q =>
    .fixed p (.keyword .CASE) ::
      ((match key with
        | none => []
        | some k => k.leaves) ++ (leavesOfArm first ++ leavesOfArms others) ++
        (match otherwise with
        | none => []
        | some ⟨o, result⟩ => .fixed o (.keyword .ELSE) :: result.leaves) ++
        [.fixed q (.keyword .END)])
  | isNull x p q => x.leaves ++ [.fixed p (.keyword .IS), .fixed q (.keyword .NULL)]
  | paren l x r => .fixed l .leftParen :: (x.leaves ++ [.fixed r .rightParen])

/-- The tokens of the expressions, with commas between them. -/
def leavesOfList : List Expr → List Leaf
  | [] => []
  | e :: es => e.leaves ++ leavesOfOthers es

/-- The tokens of the expressions, with a comma before each. -/
def leavesOfOthers : List Expr → List Leaf
  | [] => []
  | e :: es => .comma :: (e.leaves ++ leavesOfOthers es)

/-- The tokens of the arm. -/
def leavesOfArm : Arm → List Leaf
  | ⟨p, cond, q, result⟩ =>
    .fixed p (.keyword .WHEN) :: (cond.leaves ++ .fixed q (.keyword .THEN) :: result.leaves)

/-- The tokens of the arms. -/
def leavesOfArms : List Arm → List Leaf
  | [] => []
  | a :: as => leavesOfArm a ++ leavesOfArms as

end

/-- The words of the expression, in order. -/
def yield (e : Expr) : List Word := e.leaves.map Leaf.word

end Expr

/-- The tokens of the arm. -/
def Arm.leaves (a : Arm) : List Leaf :=
  .fixed a.pos (.keyword .WHEN) ::
    (a.cond.leaves ++ .fixed a.thenPos (.keyword .THEN) :: a.result.leaves)

/-- The tokens of the last part of a choice. -/
def Otherwise.leaves (o : Otherwise) : List Leaf :=
  .fixed o.pos (.keyword .ELSE) :: o.result.leaves

namespace Expr

theorem leavesOfOthers_eq (es : List Expr) :
    leavesOfOthers es = es.flatMap fun e => .comma :: e.leaves := by
  induction es with
  | nil => rfl
  | cons e es ih => rw [leavesOfOthers, ih, List.flatMap_cons, List.cons_append]

theorem leavesOfList_eq (es : List Expr) : leavesOfList es = Leaf.list leaves es := by
  cases es with
  | nil => rfl
  | cons e es => rw [leavesOfList, leavesOfOthers_eq, Leaf.list]

theorem leavesOfArm_eq (a : Arm) : leavesOfArm a = a.leaves := by
  obtain ⟨p, cond, q, result⟩ := a
  rfl

theorem leavesOfArms_eq (as : List Arm) : leavesOfArms as = as.flatMap Arm.leaves := by
  induction as with
  | nil => rfl
  | cons a as ih => rw [leavesOfArms, ih, List.flatMap_cons, leavesOfArm_eq]

theorem leaves_call (f : Name) (l r : Nat) (args : List Expr) :
    (call f l args r).leaves =
      .ofName f :: .fixed l .leftParen :: (Leaf.list leaves args ++ [.fixed r .rightParen]) := by
  rw [leaves, leavesOfList_eq]

theorem leaves_case (p q : Nat) (key : Option Expr) (first : Arm) (others : List Arm)
    (otherwise : Option Otherwise) :
    (case p key first others otherwise q).leaves =
      .fixed p (.keyword .CASE) ::
        (key.elim [] leaves ++ (first :: others).flatMap Arm.leaves ++
          otherwise.elim [] Otherwise.leaves ++ [.fixed q (.keyword .END)]) := by
  rcases key with - | k <;> rcases otherwise with - | ⟨o, result⟩ <;>
    simp [leaves, leavesOfArm_eq, leavesOfArms_eq, Otherwise.leaves]

end Expr

/-- The tokens of the alias. -/
def Alias.leaves (a : Alias) : List Leaf := [.fixed a.asPos (.keyword .AS), .ofName a.name]

/-- The tokens of the column. -/
def Column.leaves (c : Column) : List Leaf := c.expr.leaves ++ c.asName.elim [] Alias.leaves

/-- The tokens of the table. -/
def Table.leaves (t : Table) : List Leaf := .ofName t.name :: t.asName.elim [] Alias.leaves

/-- The tokens of the SELECT clause. -/
def SelectClause.leaves (c : SelectClause) : List Leaf :=
  .fixed c.pos (.keyword .SELECT) :: Leaf.list Column.leaves c.columns.toList

/-- The tokens of the FROM clause. -/
def FromClause.leaves (c : FromClause) : List Leaf :=
  .fixed c.pos (.keyword .FROM) :: Leaf.list Table.leaves c.tables.toList

/-- The tokens of the WHERE clause. -/
def WhereClause.leaves (c : WhereClause) : List Leaf :=
  .fixed c.pos (.keyword .WHERE) :: c.cond.leaves

/-- The tokens of the clause of the keyword `k` and BY. -/
def ByClause.leaves (k : Keyword) (c : ByClause) : List Leaf :=
  .fixed c.pos (.keyword k) :: .fixed c.byPos (.keyword .BY) ::
    Leaf.list Expr.leaves c.items.toList

namespace Statement

/-- The tokens of the statement, in order. -/
def leaves (s : Statement) : List Leaf :=
  s.select.leaves ++ s.fromClause.leaves ++ s.whereClause.elim [] WhereClause.leaves ++
    s.groupBy.elim [] (ByClause.leaves .GROUP) ++ s.orderBy.elim [] (ByClause.leaves .ORDER)

/-- The words of the statement, in order. -/
def yield (s : Statement) : List Word := s.leaves.map Leaf.word

end Statement

/-! ### Tokens of leaves -/

/-- The tokens are those of the leaves, at the positions that the leaves have. -/
def Spells (ts : List Token) (ls : List Leaf) : Prop := List.Forall₂ (fun t l => l.Marks t) ts ls

theorem Spells.map_word {ts : List Token} {ls : List Leaf} (h : Spells ts ls) :
    ts.map Token.word = ls.map Leaf.word := by
  induction h with
  | nil => rfl
  | cons hmark _ ih => rw [List.map_cons, List.map_cons, hmark.1, ih]

/-! ### What the leaves are -/

/-- A leaf that is no operator. -/
inductive Leaf.Plain : Leaf → Prop where
  | name (n : Name) : Plain (.ofName n)
  | literal (p : Nat) (k : LiteralKind) (text : String) : Plain ⟨some p, ⟨k.kind, text⟩⟩
  | wildcard (p : Nat) : Plain (.fixed p .star)
  | keyword (p : Nat) (k : Keyword) : Plain (.fixed p (.keyword k))
  | leftParen (p : Nat) : Plain (.fixed p .leftParen)
  | rightParen (p : Nat) : Plain (.fixed p .rightParen)
  | dot : Plain .dot
  | comma : Plain .comma

/-- The operator at the root of the expression. -/
def Expr.operator? : Expr → Option Leaf
  | unary p op _ => some (.fixed p op.kind)
  | binary _ p op _ => some (.fixed p op.kind)
  | _ => none

/-- The leaf is no operator, or that of one of the expressions. -/
def Leaf.OfNodes (es : List Expr) (l : Leaf) : Prop := l.Plain ∨ ∃ e ∈ es, l ∈ e.operator?

namespace Leaf

theorem OfNodes.mono {es fs : List Expr} {l : Leaf} (h : l.OfNodes es) (hes : es ⊆ fs) :
    l.OfNodes fs :=
  h.imp_right fun ⟨e, he, hl⟩ => ⟨e, hes he, hl⟩

theorem forall_mem_list {α : Type} {leaves : α → List Leaf} {p : Leaf → Prop} {xs : List α}
    (hcomma : p comma) (h : ∀ x ∈ xs, ∀ l ∈ leaves x, p l) : ∀ l ∈ list leaves xs, p l := by
  cases xs with
  | nil => exact fun _ hl => nomatch hl
  | cons x xs =>
    rw [List.forall_mem_cons] at h
    rw [list, List.forall_mem_append, List.forall_mem_flatMap]
    exact ⟨h.1, fun y hy => List.forall_mem_cons.2 ⟨hcomma, h.2 y hy⟩⟩

/-- What holds of the leaves of an optional part, if there is one. -/
theorem forall_mem_elim {α : Type} {leaves : α → List Leaf} {p : Leaf → Prop} {x : Option α}
    (h : ∀ y ∈ x, ∀ l ∈ leaves y, p l) : ∀ l ∈ x.elim [] leaves, p l := by
  cases x with
  | none => exact fun _ hl => nomatch hl
  | some y => exact h y rfl

end Leaf

section OfNodes

variable {es : List Expr}

theorem Arm.ofNodes_of_mem_leaves {a : Arm} (hcond : ∀ l ∈ a.cond.leaves, l.OfNodes es)
    (hresult : ∀ l ∈ a.result.leaves, l.OfNodes es) : ∀ l ∈ a.leaves, l.OfNodes es := by
  rw [Arm.leaves, List.forall_mem_cons, List.forall_mem_append, List.forall_mem_cons]
  exact ⟨Or.inl (.keyword _ _), hcond, Or.inl (.keyword _ _), hresult⟩

theorem Otherwise.ofNodes_of_mem_leaves {o : Otherwise} (h : ∀ l ∈ o.result.leaves, l.OfNodes es) :
    ∀ l ∈ o.leaves, l.OfNodes es :=
  List.forall_mem_cons.2 ⟨Or.inl (.keyword _ _), h⟩

/-- The operators among the leaves of an expression are those of its nodes. -/
theorem Expr.ofNodes_of_mem_leaves (e : Expr) : ∀ l ∈ e.leaves, l.OfNodes e.nodes := by
  induction e using Expr.childInduction with
  | step e ih =>
    have ih : ∀ c ∈ e.children, ∀ l ∈ c.leaves, l.OfNodes e.nodes := fun c hc l hl =>
      (ih c hc l hl).mono fun _ => mem_nodes_of_mem_children hc
    have hroot : ∀ {l}, l ∈ e.operator? → l.OfNodes e.nodes := fun hl =>
      Or.inr ⟨e, e.mem_nodes_self, hl⟩
    cases e with
    | column q n =>
      cases q with
      | none => exact List.forall_mem_singleton.2 (Or.inl (.name n))
      | some q =>
        exact List.forall_mem_cons.2 ⟨Or.inl (.name q), List.forall_mem_cons.2
          ⟨Or.inl .dot, List.forall_mem_singleton.2 (Or.inl (.name n))⟩⟩
    | literal p k text => exact List.forall_mem_singleton.2 (Or.inl (.literal p k text))
    | wildcard p => exact List.forall_mem_singleton.2 (Or.inl (.wildcard p))
    | unary p op x =>
      rw [leaves, List.forall_mem_cons]
      exact ⟨hroot rfl, ih x (by simp [children])⟩
    | binary x p op y =>
      rw [leaves, List.forall_mem_append, List.forall_mem_cons]
      exact ⟨ih x (by simp [children]), hroot rfl, ih y (by simp [children])⟩
    | call f l args r =>
      rw [leaves_call, List.forall_mem_cons, List.forall_mem_cons, List.forall_mem_append,
        List.forall_mem_singleton]
      exact ⟨Or.inl (.name f), Or.inl (.leftParen l), Leaf.forall_mem_list (Or.inl .comma) ih,
        Or.inl (.rightParen r)⟩
    | case p key first others last q =>
      obtain ⟨ihkey, iharms, ihlast⟩ := forall_children_case.1 ih
      rw [leaves_case, List.forall_mem_cons, List.forall_mem_append, List.forall_mem_append,
        List.forall_mem_append, List.forall_mem_flatMap, List.forall_mem_singleton]
      exact ⟨Or.inl (.keyword p _), ⟨⟨Leaf.forall_mem_elim ihkey,
        fun a ha => Arm.ofNodes_of_mem_leaves (iharms a ha).1 (iharms a ha).2⟩,
        Leaf.forall_mem_elim fun o ho => Otherwise.ofNodes_of_mem_leaves (ihlast o ho)⟩,
        Or.inl (.keyword q _)⟩
    | isNull x p q =>
      rw [leaves, List.forall_mem_append, List.forall_mem_cons, List.forall_mem_singleton]
      exact ⟨ih x (by simp [children]), Or.inl (.keyword p _), Or.inl (.keyword q _)⟩
    | paren l x r =>
      rw [leaves, List.forall_mem_cons, List.forall_mem_append, List.forall_mem_singleton]
      exact ⟨Or.inl (.leftParen l), ih x (by simp [children]), Or.inl (.rightParen r)⟩

theorem Alias.ofNodes_of_mem_leaves (a : Alias) : ∀ l ∈ a.leaves, l.OfNodes es :=
  List.forall_mem_cons.2 ⟨Or.inl (.keyword _ _),
    List.forall_mem_singleton.2 (Or.inl (.name a.name))⟩

theorem ByClause.ofNodes_of_mem_leaves (k : Keyword) {c : ByClause}
    (h : ∀ e ∈ c.items.toList, ∀ l ∈ e.leaves, l.OfNodes es) : ∀ l ∈ c.leaves k, l.OfNodes es := by
  rw [ByClause.leaves, List.forall_mem_cons, List.forall_mem_cons]
  exact ⟨Or.inl (.keyword _ k), Or.inl (.keyword _ _), Leaf.forall_mem_list (Or.inl .comma) h⟩

end OfNodes

/-- The operators among the leaves of a statement are those of its nodes. -/
theorem Statement.ofNodes_of_mem_leaves (s : Statement) :
    ∀ l ∈ s.leaves, l.OfNodes (s.exprs.flatMap Expr.nodes) := by
  have hexprs : ∀ e ∈ s.exprs, ∀ l ∈ e.leaves, l.OfNodes (s.exprs.flatMap Expr.nodes) :=
    fun e he l hl => (e.ofNodes_of_mem_leaves l hl).mono fun _ hx => List.mem_flatMap.2 ⟨e, he, hx⟩
  obtain ⟨hselect, hwhere, hgroup, horder⟩ := forall_exprs_iff.1 hexprs
  rw [leaves, List.forall_mem_append, List.forall_mem_append, List.forall_mem_append,
    List.forall_mem_append]
  refine ⟨⟨⟨⟨?_, ?_⟩, ?_⟩,
    Leaf.forall_mem_elim fun c hc => ByClause.ofNodes_of_mem_leaves .GROUP (hgroup c hc)⟩,
    Leaf.forall_mem_elim fun c hc => ByClause.ofNodes_of_mem_leaves .ORDER (horder c hc)⟩
  · rw [SelectClause.leaves, List.forall_mem_cons]
    refine ⟨Or.inl (.keyword _ _), Leaf.forall_mem_list (Or.inl .comma) fun c hc => ?_⟩
    rw [Column.leaves, List.forall_mem_append]
    exact ⟨hselect c hc, Leaf.forall_mem_elim fun a _ => a.ofNodes_of_mem_leaves⟩
  · rw [FromClause.leaves, List.forall_mem_cons]
    refine ⟨Or.inl (.keyword _ _), Leaf.forall_mem_list (Or.inl .comma) fun t _ => ?_⟩
    rw [Table.leaves, List.forall_mem_cons]
    exact ⟨Or.inl (.name t.name), Leaf.forall_mem_elim fun a _ => a.ofNodes_of_mem_leaves⟩
  · exact Leaf.forall_mem_elim fun w hw =>
      List.forall_mem_cons.2 ⟨Or.inl (.keyword _ _), hwhere w hw⟩

/-! ### Every leaf is that of some token -/

namespace Leaf

/-- Some token that can stand inside a statement is that of the leaf. -/
def Genuine (l : Leaf) : Prop :=
  ∃ t : Token, t.kind ≠ .comment ∧ t.kind ≠ .semicolon ∧ l.Marks t

theorem genuine_fixed (p : Nat) {k : Kind} (hk : k.keepsText = false) (hinside : k ≠ .semicolon) :
    (fixed p k).Genuine :=
  ⟨⟨p, k, ""⟩, fun h => (by cases h; cases hk), hinside, marks_fixed (t := ⟨p, k, ""⟩) rfl hk⟩

theorem Plain.genuine {l : Leaf} (h : l.Plain) : l.Genuine := by
  cases h with
  | name n => exact ⟨⟨n.pos, .ident, n.text⟩, nofun, nofun,
      marks_ofName (t := ⟨n.pos, .ident, n.text⟩) rfl⟩
  | literal p k text => exact ⟨⟨p, k.kind, text⟩, by cases k <;> exact nofun,
      by cases k <;> exact nofun, marks_literal (t := ⟨p, k.kind, text⟩) rfl⟩
  | keyword p k => exact genuine_fixed p rfl nofun
  | wildcard p | leftParen p | rightParen p => exact genuine_fixed p rfl (by decide)
  | dot => exact ⟨⟨0, .dot, ""⟩, nofun, nofun, marks_dot rfl⟩
  | comma => exact ⟨⟨0, .comma, ""⟩, nofun, nofun, marks_comma rfl⟩

theorem genuine_of_mem_operator? {e : Expr} {l : Leaf} (h : l ∈ e.operator?) : l.Genuine := by
  cases e with
  | unary p op x =>
    cases h
    exact genuine_fixed p (by cases op <;> rfl) (by cases op <;> decide)
  | binary x p op y =>
    cases h
    exact genuine_fixed p (by cases op <;> rfl) (by cases op <;> decide)
  | _ => cases h

end Leaf

theorem Statement.genuine_of_mem_leaves (s : Statement) : ∀ l ∈ s.leaves, l.Genuine := by
  intro l hl
  rcases s.ofNodes_of_mem_leaves l hl with hplain | ⟨e, -, hoperator⟩
  · exact hplain.genuine
  · exact Leaf.genuine_of_mem_operator? hoperator

/-- Some tokens have the words of the statement. -/
theorem Statement.exists_words (s : Statement) :
    ∃ ts : List Token, ts.map Token.word = s.yield := by
  obtain ⟨ts, hts⟩ : ∃ ts, Spells ts s.leaves := by
    have hgenuine := s.genuine_of_mem_leaves
    generalize s.leaves = ls at hgenuine
    induction ls with
    | nil => exact ⟨[], .nil⟩
    | cons l ls ih =>
      rw [List.forall_mem_cons] at hgenuine
      obtain ⟨t, -, -, ht⟩ := hgenuine.1
      obtain ⟨ts, hts⟩ := ih hgenuine.2
      exact ⟨t :: ts, .cons ht hts⟩
  exact ⟨ts, hts.map_word⟩

/-- No comment and no semicolon is among the words of a statement. -/
theorem Statement.kind_of_mem_yield {s : Statement} {w : Word} (h : w ∈ s.yield) :
    w.kind ≠ .comment ∧ w.kind ≠ .semicolon := by
  obtain ⟨l, hl, rfl⟩ := List.mem_map.1 h
  obtain ⟨t, hcomment, hsemicolon, hmarks⟩ := s.genuine_of_mem_leaves l hl
  rw [← hmarks.1]
  exact ⟨hcomment, hsemicolon⟩

/-- The tokens of the leaves stand at the front of `ts`, and `rest` behind them. -/
def Reads (ts : List Token) (ls : List Leaf) (rest : List Token) : Prop :=
  ∃ read, ts = read ++ rest ∧ Spells read ls

namespace Reads

variable {ts us rest : List Token} {ls ks : List Leaf} {l : Leaf} {t : Token}

theorem nil (ts : List Token) : Reads ts [] ts := ⟨[], rfl, .nil⟩

theorem cons (hmark : l.Marks t) (h : Reads ts ls rest) : Reads (t :: ts) (l :: ls) rest := by
  obtain ⟨read, rfl, hread⟩ := h
  exact ⟨t :: read, rfl, .cons hmark hread⟩

theorem single (hmark : l.Marks t) (ts : List Token) : Reads (t :: ts) [l] ts :=
  (nil ts).cons hmark

theorem append (h : Reads ts ls us) (h' : Reads us ks rest) : Reads ts (ls ++ ks) rest := by
  obtain ⟨read, rfl, hread⟩ := h
  obtain ⟨read', rfl, hread'⟩ := h'
  exact ⟨read ++ read', (List.append_assoc ..).symm, List.rel_append hread hread'⟩

theorem length_le (h : Reads ts ls rest) : rest.length ≤ ts.length := by
  obtain ⟨read, rfl, -⟩ := h
  simp

/-- What is left behind a token is shorter than what it stands in front of. -/
theorem length_lt (h : Reads ts ls rest) (t : Token) : rest.length < (t :: ts).length := by
  have hle := h.length_le
  rw [List.length_cons]
  omega

end Reads

end SqlFormatter
