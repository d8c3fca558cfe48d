import SqlFormatter.Expr.Basic

/-!
# SqlFormatter.Proofs.Expr.Node

The nodes of an expression, and the two ways in which facts about all of them are proved here:

* `Expr.childInduction`: what holds of an expression if it holds of its children holds of all
  expressions. Nested lists, arms and optional parts do not show in it.
* `Expr.rebuild`: an expression with one function applied to every node, from the leaves up.
  `Expr.rebuild_eq` says that in terms of the children alone.
-/

namespace SqlFormatter

/-- The two expressions of an arm. -/
def Arm.parts (a : Arm) : List Expr := [a.cond, a.result]

namespace Expr

/-- The expressions just below the root, in order. -/
def children : Expr → List Expr
  | column .. | literal .. | wildcard _ => []
  | unary _ _ x => [x]
  | binary x _ _ y => [x, y]
  | call _ _ args _ => args
  | case _ key first others otherwise _ =>
    key.toList ++ (first :: others).flatMap Arm.parts ++ (otherwise.map (·.result)).toList
  | isNull x _ _ => [x]
  | paren _ x _ => [x]

theorem sizeOf_lt_of_mem_parts {a : Arm} {x : Expr} (h : x ∈ a.parts) : sizeOf x < sizeOf a := by
  obtain ⟨p, cond, q, result⟩ := a
  simp only [Arm.parts, List.mem_cons, List.not_mem_nil, or_false] at h
  simp only [Arm.mk.sizeOf_spec]
  rcases h with rfl | rfl <;> omega

/-- A child is smaller than its parent. -/
theorem sizeOf_lt_of_mem_children {e x : Expr} (h : x ∈ e.children) : sizeOf x < sizeOf e := by
  cases e with
  | column | literal | wildcard => simp [children] at h
  | unary | isNull | paren =>
    simp only [children, List.mem_singleton] at h
    subst h
    simp
    try omega
  | binary x p op y =>
    simp only [children, List.mem_cons, List.not_mem_nil, or_false] at h
    simp only [binary.sizeOf_spec]
    rcases h with rfl | rfl <;> omega
  | call f l args r =>
    have hlt := List.sizeOf_lt_of_mem h
    simp only [children, call.sizeOf_spec] at hlt ⊢
    omega
  | case p key first others otherwise q =>
    simp only [children, List.mem_append, Option.mem_toList, List.mem_flatMap] at h
    simp only [case.sizeOf_spec]
    -- The child is the key, in an arm, or in the last part.
    rcases h with (h | ⟨a, ha, h⟩) | h
    · subst h
      simp only [Option.some.sizeOf_spec]
      omega
    · have hlt := sizeOf_lt_of_mem_parts h
      rcases List.mem_cons.1 ha with rfl | ha
      · omega
      · have := List.sizeOf_lt_of_mem ha
        omega
    · cases otherwise with
      | none => simp at h
      | some o =>
        obtain ⟨p, result⟩ := o
        cases h
        simp only [Option.some.sizeOf_spec, Otherwise.mk.sizeOf_spec]
        omega

/-- What passes from its children to every expression holds of all expressions. -/
@[elab_as_elim]
theorem childInduction {motive : Expr → Prop}
    (step : ∀ e, (∀ c ∈ e.children, motive c) → motive e) (e : Expr) : motive e :=
  step e fun c hc =>
    have := sizeOf_lt_of_mem_children hc
    childInduction step c
termination_by sizeOf e

/-- A fact about the children of a choice, part by part. -/
theorem forall_children_case {motive : Expr → Prop} {p q : Nat} {key : Option Expr} {first : Arm}
    {others : List Arm} {otherwise : Option Otherwise} :
    (∀ c ∈ (case p key first others otherwise q).children, motive c) ↔
      (∀ k ∈ key, motive k) ∧ (∀ a ∈ first :: others, motive a.cond ∧ motive a.result) ∧
        (∀ o ∈ otherwise, motive o.result) := by
  simp only [children, List.forall_mem_append, and_assoc]
  refine and_congr (by simp) (and_congr ?_ (by cases otherwise <;> simp))
  rw [List.forall_mem_flatMap]
  simp [Arm.parts]

/-! ### All nodes -/

mutual

/-- The expression and all expressions inside it, each before its children. -/
def nodes : Expr → List Expr
  | column q n => [column q n]
  | literal p k t => [literal p k t]
  | wildcard p => [wildcard p]
  | unary p op x => unary p op x :: x.nodes
  | binary x p op y => binary x p op y :: (x.nodes ++ y.nodes)
  | call f l args r => call f l args r :: nodesOfList args
  | case p key first others otherwise q =>
    -- The optional parts are matched on, not mapped over, so that the recursion is structural.
    case p key first others otherwise q ::
      ((match key with
        | none => []
        | some k => k.nodes) ++ (nodesOfArm first ++ nodesOfArms others) ++
        (match otherwise with
        | none => []
        | some ⟨_, result⟩ => result.nodes))
  | isNull x p q => isNull x p q :: x.nodes
  | paren l x r => paren l x r :: x.nodes

/-- The nodes of all the expressions. -/
def nodesOfList : List Expr → List Expr
  | [] => []
  | e :: es => e.nodes ++ nodesOfList es

/-- The nodes of the arm. -/
def nodesOfArm : Arm → List Expr
  | ⟨_, cond, _, result⟩ => cond.nodes ++ result.nodes

/-- The nodes of all the arms. -/
def nodesOfArms : List Arm → List Expr
  | [] => []
  | a :: as => nodesOfArm a ++ nodesOfArms as

end

theorem nodesOfList_eq (es : List Expr) : nodesOfList es = es.flatMap nodes := by
  induction es with
  | nil => rfl
  | cons e es ih => rw [nodesOfList, ih, List.flatMap_cons]

theorem nodesOfArm_eq (a : Arm) : nodesOfArm a = a.parts.flatMap nodes := by
  obtain ⟨p, cond, q, result⟩ := a
  simp [nodesOfArm, Arm.parts]

theorem nodesOfArms_eq (as : List Arm) :
    nodesOfArms as = (as.flatMap Arm.parts).flatMap nodes := by
  induction as with
  | nil => rfl
  | cons a as ih => rw [nodesOfArms, ih, nodesOfArm_eq, List.flatMap_cons, List.flatMap_append]

/-- The nodes of an expression are itself and those of its children. -/
theorem nodes_eq (e : Expr) : e.nodes = e :: e.children.flatMap nodes := by
  cases e with
  | column | literal | wildcard | unary | binary | isNull | paren => simp [nodes, children]
  | call f l args r => rw [nodes, nodesOfList_eq, children]
  | case p key first others otherwise q =>
    rcases key with - | k <;> rcases otherwise with - | ⟨o, result⟩ <;>
      simp [nodes, children, nodesOfArm_eq, nodesOfArms_eq]

theorem mem_nodes_self (e : Expr) : e ∈ e.nodes := by
  rw [nodes_eq]
  exact List.mem_cons_self

theorem mem_nodes_of_mem_children {e c x : Expr} (hc : c ∈ e.children) (hx : x ∈ c.nodes) :
    x ∈ e.nodes := by
  rw [nodes_eq]
  exact List.mem_cons_of_mem _ (List.mem_flatMap.2 ⟨c, hc, hx⟩)

theorem mem_nodes_trans {e x y : Expr} (hx : x ∈ e.nodes) (hy : y ∈ x.nodes) : y ∈ e.nodes := by
  induction e using childInduction with
  | step e ih =>
    rw [nodes_eq] at hx
    rcases List.mem_cons.1 hx with rfl | hx
    · exact hy
    · obtain ⟨c, hc, hx⟩ := List.mem_flatMap.1 hx
      exact mem_nodes_of_mem_children hc (ih c hc hx)

/-- All nodes of an expression have a property if it has and those of its children have. -/
theorem forall_nodes_iff {motive : Expr → Prop} {e : Expr} :
    (∀ x ∈ e.nodes, motive x) ↔ motive e ∧ ∀ c ∈ e.children, ∀ x ∈ c.nodes, motive x := by
  rw [nodes_eq, List.forall_mem_cons, List.forall_mem_flatMap]

end Expr

/-! ### Rebuilding -/

/-- The arm with `f` applied to its two expressions. -/
def Arm.map (f : Expr → Expr) (a : Arm) : Arm :=
  { a with cond := f a.cond, result := f a.result }

/-- The last part of a choice with `f` applied to its expression. -/
def Otherwise.map (f : Expr → Expr) (o : Otherwise) : Otherwise := { o with result := f o.result }

namespace Expr

/-- The expression with `f` applied to its children. -/
def mapChildren (f : Expr → Expr) : Expr → Expr
  | column q n => column q n
  | literal p k t => literal p k t
  | wildcard p => wildcard p
  | unary p op x => unary p op (f x)
  | binary x p op y => binary (f x) p op (f y)
  | call g l args r => call g l (args.map f) r
  | case p key first others otherwise q =>
    case p (key.map f) (first.map f) (others.map (Arm.map f)) (otherwise.map (Otherwise.map f)) q
  | isNull x p q => isNull (f x) p q
  | paren l x r => paren l (f x) r

theorem mapChildren_congr {f g : Expr → Expr} {e : Expr} (h : ∀ c ∈ e.children, f c = g c) :
    e.mapChildren f = e.mapChildren g := by
  cases e with
  | column | literal | wildcard => rfl
  | unary | isNull | paren => simpa [children, mapChildren] using h
  | binary x p op y =>
    simp only [children, List.forall_mem_cons] at h
    simp [mapChildren, h.1, h.2.1]
  | call k l args r => simpa [children, mapChildren] using h
  | case p key first others otherwise q =>
    obtain ⟨hkey, harms, hlast⟩ := forall_children_case.1 h
    rw [List.forall_mem_cons] at harms
    simp only [mapChildren, Arm.map, case.injEq, true_and, and_true, harms.1]
    refine ⟨?_, ?_, ?_⟩
    · cases key <;> simp_all
    · exact List.map_congr_left fun a ha => by simp [Arm.map, harms.2 a ha]
    · cases otherwise <;> simp_all [Otherwise.map]

theorem mapChildren_id (e : Expr) : (e.mapChildren fun x => x) = e := by
  cases e with
  | column | literal | wildcard | unary | binary | isNull | paren => rfl
  | call k l args r => simp [mapChildren]
  | case p key first others otherwise q =>
    have harm : Arm.map (fun x => x) = id := funext fun ⟨_, _, _, _⟩ => rfl
    have hlast : Otherwise.map (fun x => x) = id := funext fun ⟨_, _⟩ => rfl
    simp [mapChildren, harm, hlast]

theorem mapChildren_mapChildren (f g : Expr → Expr) (e : Expr) :
    (e.mapChildren f).mapChildren g = e.mapChildren fun x => g (f x) := by
  cases e with
  | column | literal | wildcard | unary | binary | isNull | paren => rfl
  | call k l args r => simp [mapChildren]
  | case p key first others otherwise q =>
    simp only [mapChildren, Option.map_map, List.map_map]
    rfl

theorem children_mapChildren (f : Expr → Expr) (e : Expr) :
    (e.mapChildren f).children = e.children.map f := by
  cases e with
  | column | literal | wildcard | unary | binary | call | isNull | paren => rfl
  | case p key first others otherwise q =>
    cases key <;> cases otherwise <;>
      simp [mapChildren, children, Arm.map, Arm.parts, Otherwise.map, List.flatMap_map,
        List.map_flatMap]

mutual

/-- The expression with `f` applied to every node, from the leaves up. -/
def rebuild (f : Expr → Expr) : Expr → Expr
  | column q n => f (column q n)
  | literal p k t => f (literal p k t)
  | wildcard p => f (wildcard p)
  | unary p op x => f (unary p op (x.rebuild f))
  | binary x p op y => f (binary (x.rebuild f) p op (y.rebuild f))
  | call g l args r => f (call g l (rebuildList f args) r)
  | case p key first others otherwise q =>
    f (case p
      (match key with
        | none => none
        | some k => some (k.rebuild f))
      (rebuildArm f first) (rebuildArms f others)
      (match otherwise with
        | none => none
        | some ⟨o, result⟩ => some ⟨o, result.rebuild f⟩) q)
  | isNull x p q => f (isNull (x.rebuild f) p q)
  | paren l x r => f (paren l (x.rebuild f) r)

/-- The expressions, each rebuilt. -/
def rebuildList (f : Expr → Expr) : List Expr → List Expr
  | [] => []
  | e :: es => e.rebuild f :: rebuildList f es

/-- The arm with its expressions rebuilt. -/
def rebuildArm (f : Expr → Expr) : Arm → Arm
  | ⟨p, cond, q, result⟩ => ⟨p, cond.rebuild f, q, result.rebuild f⟩

/-- The arms, each with its expressions rebuilt. -/
def rebuildArms (f : Expr → Expr) : List Arm → List Arm
  | [] => []
  | a :: as => rebuildArm f a :: rebuildArms f as

end

theorem rebuildList_eq (f : Expr → Expr) (es : List Expr) :
    rebuildList f es = es.map (rebuild f) := by
  induction es with
  | nil => rfl
  | cons e es ih => rw [rebuildList, ih, List.map_cons]

theorem rebuildArm_eq (f : Expr → Expr) (a : Arm) : rebuildArm f a = a.map (rebuild f) := by
  obtain ⟨p, cond, q, result⟩ := a
  rfl

theorem rebuildArms_eq (f : Expr → Expr) (as : List Arm) :
    rebuildArms f as = as.map (Arm.map (rebuild f)) := by
  induction as with
  | nil => rfl
  | cons a as ih => rw [rebuildArms, ih, rebuildArm_eq, List.map_cons]

/-- Rebuilding works on the children first, and then on the root. -/
theorem rebuild_eq (f : Expr → Expr) (e : Expr) : e.rebuild f = f (e.mapChildren (rebuild f)) := by
  cases e with
  | column | literal | wildcard | unary | binary | isNull | paren => rfl
  | call g l args r => rw [rebuild, rebuildList_eq, mapChildren]
  | case p key first others otherwise q =>
    rcases key with - | k <;> rcases otherwise with - | ⟨o, result⟩ <;>
      simp [rebuild, mapChildren, rebuildArm_eq, rebuildArms_eq, Otherwise.map]

/-- Two functions that rebuild expressions can change places if one of them has nothing to do with
the children, and the other works on the root in the same way before it and after it. -/
theorem rebuild_comm {f g : Expr → Expr} (hroot : ∀ e, (f e).rebuild g = f (e.rebuild g))
    (hchildren : ∀ h e, g (e.mapChildren h) = (g e).mapChildren h) (e : Expr) :
    (e.rebuild f).rebuild g = (e.rebuild g).rebuild f := by
  induction e using childInduction with
  | step e ih =>
    calc (e.rebuild f).rebuild g
        = f ((e.mapChildren (rebuild f)).rebuild g) := by rw [rebuild_eq f, hroot]
      _ = f (g (e.mapChildren fun x => (x.rebuild f).rebuild g)) := by
          rw [rebuild_eq g, mapChildren_mapChildren]
      _ = f (g (e.mapChildren fun x => (x.rebuild g).rebuild f)) := by rw [mapChildren_congr ih]
      _ = f ((e.rebuild g).mapChildren (rebuild f)) := by
          rw [rebuild_eq g, ← mapChildren_mapChildren, hchildren]
      _ = (e.rebuild g).rebuild f := (rebuild_eq f _).symm

end Expr

end SqlFormatter
