import SqlFormatter.Proofs.Statement.Node

/-!
# SqlFormatter.Proofs.Statement.Outline

The outline of a statement tells of nothing but its nodes and its comments: every range in it is
that of one of these, or absent (`Statement.range_of_mem_outline`).
-/

namespace SqlFormatter

namespace Expr

theorem outlineOfList_eq (es : List Expr) : outlineOfList es = es.flatMap outline := by
  induction es with
  | nil => rfl
  | cons e es ih => rw [outlineOfList, ih, List.flatMap_cons]

theorem outlineOfArm_eq (a : Arm) :
    outlineOfArm a = (.arm, a.node.range) :: a.parts.flatMap outline := by
  obtain ⟨p, cond, q, result⟩ := a
  simp [outlineOfArm, Arm.parts, Arm.node, Arm.range]

theorem outlineOfArms_eq (as : List Arm) : outlineOfArms as = as.flatMap outlineOfArm := by
  induction as with
  | nil => rfl
  | cons a as ih => rw [outlineOfArms, ih, List.flatMap_cons]

/-- Whether an entry has the range of the expression, of a node inside that is no expression, or is
about a child. -/
def About (e : Expr) (x : Part × Range) : Prop :=
  x.2 = .absent ∨ x.2 = e.range ∨ (∃ n ∈ e.innerNodes, x.2 = n.range) ∨
    ∃ c ∈ e.children, x.2 = c.range ∨ x ∈ c.outline

theorem about_of_child {e c : Expr} {x : Part × Range} (hc : c ∈ e.children)
    (h : x.2 = c.range ∨ x ∈ c.outline) : e.About x :=
  Or.inr (Or.inr (Or.inr ⟨c, hc, h⟩))

section Case

variable {p q : Nat} {key : Option Expr} {first : Arm} {others : List Arm}
  {otherwise : Option Otherwise} {x : Part × Range}

theorem about_of_mem_outlineOfArm {a : Arm} (ha : a ∈ first :: others) (h : x ∈ outlineOfArm a) :
    (case p key first others otherwise q).About x := by
  rw [outlineOfArm_eq, List.mem_cons, List.mem_flatMap] at h
  rcases h with rfl | ⟨c, hc, h⟩
  · refine Or.inr (Or.inr (Or.inl ⟨a.node, ?_, rfl⟩))
    exact List.mem_append_left _ (List.mem_map_of_mem ha)
  · refine about_of_child ?_ (Or.inr h)
    exact List.mem_append_left _ (List.mem_append_right _ (List.mem_flatMap.2 ⟨a, ha, hc⟩))

theorem about_of_mem_outline_case (h : x ∈ (case p key first others otherwise q).outline) :
    (case p key first others otherwise q).About x := by
  unfold outline at h
  simp only [outlineOfArms_eq, List.mem_append, List.mem_flatMap] at h
  rcases h with ((h | h) | ⟨a, ha, h⟩) | h
  · cases key with
    | none => exact Or.inr (Or.inl (congrArg Prod.snd (List.mem_singleton.1 h)))
    | some k =>
      have hk : k ∈ (case p (some k) first others otherwise q).children := by simp [children]
      simp only [List.mem_cons] at h
      rcases h with rfl | rfl | h
      · exact Or.inr (Or.inl rfl)
      · exact about_of_child hk (Or.inl rfl)
      · exact about_of_child hk (Or.inr h)
  · exact about_of_mem_outlineOfArm List.mem_cons_self h
  · exact about_of_mem_outlineOfArm (List.mem_cons_of_mem _ ha) h
  · cases otherwise with
    | none => exact Or.inl (congrArg Prod.snd (List.mem_singleton.1 h))
    | some o =>
      obtain ⟨p', result⟩ := o
      rcases List.mem_cons.1 h with rfl | h
      · refine Or.inr (Or.inr (Or.inl ⟨Otherwise.node ⟨p', result⟩, ?_, rfl⟩))
        simp [innerNodes]
      · exact about_of_child (by simp [children]) (Or.inr h)

end Case

/-- The outline of an expression is about the expression, the arms of a choice, and its children. -/
theorem about_of_mem_outline {e : Expr} {x : Part × Range} (h : x ∈ e.outline) : e.About x := by
  cases e with
  | column | literal | wildcard =>
    exact Or.inr (Or.inl (congrArg Prod.snd (List.mem_singleton.1 h)))
  | unary | isNull | paren =>
    simp only [outline, List.mem_cons] at h
    rcases h with rfl | h
    · exact Or.inr (Or.inl rfl)
    · exact about_of_child List.mem_cons_self (Or.inr h)
  | binary l opPos op r =>
    simp only [outline, List.mem_cons, List.mem_append] at h
    rcases h with rfl | h | h
    · exact Or.inr (Or.inl rfl)
    · exact about_of_child (c := l) (by simp [children]) (Or.inr h)
    · exact about_of_child (c := r) (by simp [children]) (Or.inr h)
  | call f l args r =>
    simp only [outline, outlineOfList_eq, List.mem_cons, List.mem_flatMap] at h
    rcases h with rfl | ⟨c, hc, h⟩
    · exact Or.inr (Or.inl rfl)
    · exact about_of_child hc (Or.inr h)
  | case => exact about_of_mem_outline_case h

theorem subtrees_eq (e : Expr) :
    e.subtrees = e.node :: e.innerNodes ++ e.children.flatMap subtrees := by
  rw [subtrees, nodes_eq, List.flatMap_cons, List.flatMap_assoc]
  rfl

theorem node_mem_subtrees (e : Expr) : e.node ∈ e.subtrees := by
  rw [subtrees_eq]
  exact List.mem_cons_self

theorem range_of_mem_outline {e : Expr} {x : Part × Range} (h : x ∈ e.outline) :
    x.2 = .absent ∨ ∃ n ∈ e.subtrees, x.2 = n.range := by
  induction e using childInduction with
  | step e ih =>
    have hchild : ∀ c ∈ e.children, (∃ n ∈ c.subtrees, x.2 = n.range) →
        ∃ n ∈ e.subtrees, x.2 = n.range := by
      rintro c hc ⟨n, hn, hx⟩
      rw [subtrees_eq]
      exact ⟨n, List.mem_append_right _ (List.mem_flatMap.2 ⟨c, hc, hn⟩), hx⟩
    rcases about_of_mem_outline h with hx | hx | ⟨n, hn, hx⟩ | ⟨c, hc, hx | hx⟩
    · exact Or.inl hx
    · exact Or.inr ⟨e.node, e.node_mem_subtrees, hx⟩
    · refine Or.inr ⟨n, ?_, hx⟩
      rw [subtrees_eq]
      exact List.mem_append_left _ (List.mem_cons_of_mem _ hn)
    · exact Or.inr (hchild c hc ⟨c.node, c.node_mem_subtrees, hx⟩)
    · exact (ih c hc hx).imp_right (hchild c hc)

end Expr

theorem Alias.range_of_mem_outline {a : Option Alias} {x : Part × Range} (h : x ∈ outline a) :
    x.2 = .absent ∨ ∃ n ∈ (a.map node).toList, x.2 = n.range := by
  cases a <;> simp_all [outline, node]

namespace Statement

/-- Whether the range is that of a node or of a comment, or of none. -/
def Reports (s : Statement) (r : Range) : Prop :=
  r = .absent ∨ (∃ n ∈ s.subtrees, r = n.range) ∨
    ∃ g ∈ s.comments, r = g.range ∨ ∃ c ∈ g.toList, r = c.range

theorem reports_expr {s : Statement} {e : Expr} {x : Part × Range} (he : e ∈ s.exprs)
    (h : x ∈ e.outline) : s.Reports x.2 := by
  rcases Expr.range_of_mem_outline h with hx | ⟨n, hn, hx⟩
  · exact Or.inl hx
  · exact Or.inr (Or.inl ⟨n, List.mem_append_right _ (List.mem_flatMap.2 ⟨e, he, hn⟩), hx⟩)

theorem reports_column {s : Statement} {c : Column} {x : Part × Range}
    (hc : c ∈ s.select.columns.toList) (h : x ∈ c.outline) : s.Reports x.2 := by
  have hnodes : ∀ n ∈ c.ownNodes, n ∈ s.subtrees := fun n hn => by
    simp only [subtrees, List.mem_append, List.mem_flatMap]
    exact Or.inl (Or.inl (Or.inr ⟨c, hc, hn⟩))
  simp only [Column.outline, List.mem_cons, List.mem_append] at h
  rcases h with rfl | h | h
  · exact Or.inr (Or.inl ⟨c.node, hnodes _ List.mem_cons_self, rfl⟩)
  · rcases Alias.range_of_mem_outline h with hx | ⟨n, hn, hx⟩
    · exact Or.inl hx
    · exact Or.inr (Or.inl ⟨n, hnodes n (List.mem_cons_of_mem _ hn), hx⟩)
  · have hexpr : c.expr ∈ s.exprs := by
      simp only [exprs, List.mem_append]
      exact Or.inl (Or.inl (Or.inl (List.mem_map_of_mem hc)))
    exact reports_expr hexpr h

theorem reports_table {s : Statement} {t : Table} {x : Part × Range}
    (ht : t ∈ s.fromClause.tables.toList) (h : x ∈ t.outline) : s.Reports x.2 := by
  have hnodes : ∀ n ∈ t.ownNodes, n ∈ s.subtrees := fun n hn => by
    simp only [subtrees, List.mem_append, List.mem_flatMap]
    exact Or.inl (Or.inr ⟨t, ht, hn⟩)
  simp only [Table.outline, List.mem_cons, List.mem_append, List.not_mem_nil, or_false] at h
  rcases h with rfl | h | rfl
  · exact Or.inr (Or.inl ⟨t.node, hnodes _ List.mem_cons_self, rfl⟩)
  · rcases Alias.range_of_mem_outline h with hx | ⟨n, hn, hx⟩
    · exact Or.inl hx
    · exact Or.inr (Or.inl ⟨n, hnodes n (List.mem_cons_of_mem _ (List.mem_cons_of_mem _ hn)), hx⟩)
  · exact Or.inr (Or.inl ⟨t.name.node, hnodes _ (by simp [Table.ownNodes]), rfl⟩)

/-- The clauses are reported with the ranges of their nodes. -/
theorem map_range_clauses (s : Statement) :
    s.clauses.map Prod.snd = s.clauseNodes.map Node.range := by
  rw [clauses, clauseNodes]
  cases s.whereClause <;> cases s.groupBy <;> cases s.orderBy <;> rfl

theorem reports_clause {s : Statement} {n : Node} (h : n ∈ s.clauseNodes) : s.Reports n.range := by
  refine Or.inr (Or.inl ⟨n, ?_, rfl⟩)
  simp only [subtrees, List.mem_append, List.mem_cons]
  exact Or.inl (Or.inl (Or.inl (Or.inr h)))

/-- The outline tells of the nodes and the comments. -/
theorem range_of_mem_outline {s : Statement} : ∀ x ∈ s.outline, s.Reports x.2 := by
  obtain ⟨hcolumns, hwhere, hgroup, horder⟩ :=
    (forall_exprs_iff (s := s)).1 fun e he x hx => reports_expr (x := x) he hx
  simp only [outline, List.forall_mem_append, List.forall_mem_flatMap]
  refine ⟨⟨⟨⟨⟨⟨⟨?_, ?_⟩, fun c hc x => reports_column hc⟩, fun t ht x => reports_table ht⟩,
    ?_⟩, ?_⟩, ?_⟩, ?_⟩
  · exact List.forall_mem_singleton.2 (Or.inr (Or.inl ⟨s.node, List.mem_cons_self, rfl⟩))
  · refine List.forall_mem_map.2 fun c hc => ?_
    have hrange : c.2 ∈ s.clauses.map Prod.snd := List.mem_map_of_mem hc
    rw [map_range_clauses] at hrange
    obtain ⟨n, hn, hrange⟩ := List.mem_map.1 hrange
    exact hrange ▸ reports_clause hn
  · cases hw : s.whereClause with
    | none => exact List.forall_mem_singleton.2 (Or.inl rfl)
    | some w =>
      exact List.forall_mem_cons.2 ⟨reports_clause (n := w.node) (by simp [clauseNodes, hw]),
        hwhere w hw⟩
  · cases hg : s.groupBy with
    | none => exact List.forall_mem_singleton.2 (Or.inl rfl)
    | some b =>
      refine List.forall_mem_cons.2 ⟨reports_clause (n := b.node .GROUP)
        (by simp [clauseNodes, hg]), List.forall_mem_flatMap.2 (hgroup b hg)⟩
  · cases ho : s.orderBy with
    | none => exact List.forall_mem_singleton.2 (Or.inl rfl)
    | some b =>
      refine List.forall_mem_cons.2 ⟨reports_clause (n := b.node .ORDER)
        (by simp [clauseNodes, ho]), List.forall_mem_flatMap.2 (horder b ho)⟩
  · intro g hg
    refine List.forall_mem_cons.2 ⟨Or.inr (Or.inr ⟨g, hg, Or.inl rfl⟩), List.forall_mem_map.2 ?_⟩
    exact fun c hc => Or.inr (Or.inr ⟨g, hg, Or.inr ⟨c, hc, rfl⟩⟩)

end Statement

end SqlFormatter
