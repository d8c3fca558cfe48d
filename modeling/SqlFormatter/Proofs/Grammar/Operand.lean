import SqlFormatter.Proofs.Grammar.Canonical
import SqlFormatter.Proofs.Statement.Node

/-!
# SqlFormatter.Proofs.Grammar.Operand

The tokens around an expression. A minus is a sign or an operator by what stands in front of it, so
it matters what an expression of a statement stands behind: never a token that an operand can end
with (`Statement.introduced_of_mem_nodes`). Its own last token is such a token, or a star
(`Expr.endsOperand_leaves`).
-/

namespace SqlFormatter

/-! ### In front of an expression -/

/-- Among the leaves `ms` there are the leaves `ls`, behind one that no operand ends with. -/
def Introduced (ls ms : List Leaf) : Prop :=
  ∃ l : Leaf, l.word.kind.endsOperand = false ∧ (l :: ls) <:+: ms

namespace Introduced

variable {l : Leaf} {ls ks ms ns : List Leaf}

theorem mono (h : Introduced ls ms) (hms : ms <:+: ns) : Introduced ls ns := by
  obtain ⟨l, hl, hls⟩ := h
  exact ⟨l, hl, hls.trans hms⟩

theorem of_prefix (h : Introduced ls ms) (hks : ks <+: ls) : Introduced ks ms := by
  obtain ⟨l, hl, hls⟩ := h
  exact ⟨l, hl, ((List.prefix_cons_inj l).2 hks).isInfix.trans hls⟩

theorem first (hl : l.word.kind.endsOperand = false) (ls ms : List Leaf) :
    Introduced ls (l :: (ls ++ ms)) :=
  ⟨l, hl, ⟨[], ms, rfl⟩⟩

/-- Each item of a list stands behind a comma, or in front of all others. -/
theorem list {α : Type} {leaves : α → List Leaf} {x : α} {xs : List α} (hx : x ∈ xs)
    (hl : l.word.kind.endsOperand = false) : Introduced (leaves x) (l :: Leaf.list leaves xs) := by
  cases xs with
  | nil => cases hx
  | cons y ys =>
    rcases List.mem_cons.1 hx with rfl | hx
    · exact first hl _ _
    · obtain ⟨us, vs, rfl⟩ := List.append_of_mem hx
      refine ⟨.comma, rfl, l :: (leaves y ++ us.flatMap fun z => .comma :: leaves z),
        vs.flatMap fun z => .comma :: leaves z, ?_⟩
      simp [Leaf.list]

end Introduced

theorem Arm.introduced {a : Arm} {x : Expr} (h : x ∈ a.parts) : Introduced x.leaves a.leaves := by
  rcases List.mem_pair.1 h with rfl | rfl
  · exact .first rfl _ _
  · exact ⟨.fixed a.thenPos (.keyword .THEN), rfl,
      .fixed a.pos (.keyword .WHEN) :: a.cond.leaves, [], by simp [Arm.leaves]⟩

theorem Otherwise.introduced (o : Otherwise) : Introduced o.result.leaves o.leaves :=
  ⟨.fixed o.pos (.keyword .ELSE), rfl, List.infix_refl _⟩

namespace Expr

theorem endsOperand_kind_unary (op : UnaryOp) : op.kind.endsOperand = false := by cases op <;> rfl

theorem endsOperand_kind_binary (op : BinaryOp) : op.kind.endsOperand = false := by
  cases op <;> rfl

/-- The parts of a choice other than its key. -/
theorem introduced_of_mem_innerNodes {e : Expr} {n : Node} {ls : List Leaf}
    (hn : n ∈ e.innerNodes) (h : Introduced ls n.leaves) : Introduced ls e.leaves := by
  have hinfix := Node.leaves_infix_of_mem_parts (innerNodes_cases hn).1
  rw [leaves_node] at hinfix
  exact h.mono hinfix

/-- Each part of an expression stands behind a leaf that no operand ends with, if the expression
does. -/
theorem introduced_of_mem_children {e c : Expr} {l : Leaf} (hc : c ∈ e.children)
    (hl : l.word.kind.endsOperand = false) : Introduced c.leaves (l :: e.leaves) := by
  have hinside : ∀ {ls}, Introduced ls e.leaves → Introduced ls (l :: e.leaves) :=
    fun h => h.mono (List.suffix_cons l _).isInfix
  cases e with
  | column | literal | wildcard => cases hc
  | unary p op x =>
    obtain rfl := List.mem_singleton.1 hc
    exact hinside ⟨.fixed p op.kind, endsOperand_kind_unary op, List.infix_refl _⟩
  | binary x p op y =>
    rcases List.mem_pair.1 hc with rfl | rfl
    · exact .first hl _ _
    · exact hinside ⟨.fixed p op.kind, endsOperand_kind_binary op, (List.suffix_append ..).isInfix⟩
  | call f p args q =>
    have hargs : Introduced c.leaves (.fixed p .leftParen :: Leaf.list leaves args) :=
      .list hc rfl
    refine hinside (hargs.mono ⟨[.ofName f], [.fixed q .rightParen], ?_⟩)
    rw [leaves_call]
    rfl
  | case p key first others last q =>
    have hall : ∀ c ∈ (Expr.case p key first others last q).children,
        Introduced c.leaves (l :: (Expr.case p key first others last q).leaves) := ?_
    · exact hall c hc
    refine forall_children_case.2 ⟨fun k hk => hinside ?_, fun a ha => ?_, fun o ho => hinside ?_⟩
    · cases hk
      rw [leaves_case, Option.elim_some, List.append_assoc, List.append_assoc]
      exact .first rfl _ _
    · have hnode : a.node ∈ (Expr.case p key first others last q).innerNodes :=
        List.mem_append_left _ (List.mem_map_of_mem ha)
      have harm : ∀ x ∈ a.parts, Introduced x.leaves _ := fun x hx =>
        hinside (introduced_of_mem_innerNodes hnode (a.leaves_node ▸ Arm.introduced hx))
      exact ⟨harm _ (by simp [Arm.parts]), harm _ (by simp [Arm.parts])⟩
    · have hnode : o.node ∈ (Expr.case p key first others last q).innerNodes :=
        List.mem_append_right _ (List.mem_map_of_mem (Option.mem_toList.2 ho))
      exact introduced_of_mem_innerNodes hnode (o.leaves_node ▸ o.introduced)
  | isNull x p q =>
    obtain rfl := List.mem_singleton.1 hc
    exact .first hl _ _
  | paren p x q =>
    obtain rfl := List.mem_singleton.1 hc
    exact hinside (.first rfl _ _)

theorem introduced_of_mem_nodes {e x : Expr} {l : Leaf} (hx : x ∈ e.nodes)
    (hl : l.word.kind.endsOperand = false) : Introduced x.leaves (l :: e.leaves) := by
  induction e using childInduction generalizing l with
  | step e ih =>
    rw [nodes_eq] at hx
    rcases List.mem_cons.1 hx with rfl | hx
    · exact ⟨l, hl, List.infix_refl _⟩
    · obtain ⟨c, hc, hx⟩ := List.mem_flatMap.1 hx
      obtain ⟨l', hl', hinfix⟩ := introduced_of_mem_children hc hl
      exact (ih c hc hx hl').mono hinfix

end Expr

theorem ByClause.introduced (k : Keyword) (c : ByClause) {x : Expr} (h : x ∈ c.items.toList) :
    Introduced x.leaves (c.leaves k) := by
  have hlist : Introduced x.leaves (.fixed c.byPos (.keyword .BY) :: Leaf.list Expr.leaves _) :=
    .list h rfl
  exact hlist.mono (List.suffix_cons _ _).isInfix

namespace Statement

variable {s : Statement}

theorem introduced_of_mem_exprs {e : Expr} (h : e ∈ s.exprs) : Introduced e.leaves s.leaves := by
  have hclause : ∀ {n : Node} {ls ms}, n ∈ s.clauseNodes → n.leaves = ms → Introduced ls ms →
      Introduced ls s.leaves := fun hn hms h => h.mono (hms ▸ (liesIn_of_mem_clauseNodes hn).1)
  have hall : ∀ e ∈ s.exprs, Introduced e.leaves s.leaves := ?_
  · exact hall e h
  refine forall_exprs_iff.2 ⟨fun c hc => ?_, fun w hw => ?_, fun b hb x hx => ?_,
    fun b hb x hx => ?_⟩
  · have hcolumn : Introduced c.leaves s.select.leaves := .list hc rfl
    exact hclause (by simp [clauseNodes]) s.select.leaves_node
      (hcolumn.of_prefix (List.prefix_append ..))
  · exact hclause (by simp [clauseNodes, Option.mem_def.1 hw]) w.leaves_node
      ⟨_, rfl, List.infix_refl _⟩
  · exact hclause (by simp [clauseNodes, Option.mem_def.1 hb]) (b.leaves_node .GROUP)
      (b.introduced .GROUP hx)
  · exact hclause (by simp [clauseNodes, Option.mem_def.1 hb]) (b.leaves_node .ORDER)
      (b.introduced .ORDER hx)

/-- No expression of a statement stands behind a token that an operand can end with. -/
theorem introduced_of_mem_nodes {x : Expr} (h : x ∈ s.exprs.flatMap Expr.nodes) :
    Introduced x.leaves s.leaves := by
  obtain ⟨e, he, hx⟩ := List.mem_flatMap.1 h
  obtain ⟨l, hl, hinfix⟩ := introduced_of_mem_exprs he
  exact (Expr.introduced_of_mem_nodes hx hl).mono hinfix

end Statement

/-! ### At the end of an expression -/

/-- The last leaf is a token that an operand ends with, or a star. -/
def EndsOperand (ls : List Leaf) : Prop :=
  ∃ l ∈ ls.getLast?, l.word.kind.endsOperand ∨ l.word.kind = .star

namespace EndsOperand

variable {ls : List Leaf}

theorem single {l : Leaf} (h : l.word.kind.endsOperand ∨ l.word.kind = .star) : EndsOperand [l] :=
  ⟨l, rfl, h⟩

theorem append (h : EndsOperand ls) (more : List Leaf) : EndsOperand (more ++ ls) := by
  obtain ⟨l, hl, hkind⟩ := h
  exact ⟨l, List.mem_getLast?_append_of_mem_getLast? hl, hkind⟩

theorem cons (h : EndsOperand ls) (l : Leaf) : EndsOperand (l :: ls) := h.append [l]

end EndsOperand

theorem Expr.endsOperand_leaves (e : Expr) : EndsOperand e.leaves := by
  induction e using childInduction with
  | step e ih =>
    cases e with
    | column q n => cases q <;> exact ⟨.ofName n, rfl, Or.inl rfl⟩
    | literal p k text => cases k <;> exact .single (Or.inl rfl)
    | wildcard => exact .single (Or.inr rfl)
    | unary p op x => exact (ih x (by simp [children])).cons _
    | binary x p op y => exact ((ih y (by simp [children])).cons _).append _
    | call f l args r =>
      rw [leaves_call]
      exact (((EndsOperand.single (Or.inl rfl)).append _).cons _).cons _
    | case p key first others last q =>
      rw [leaves_case]
      exact ((EndsOperand.single (Or.inl rfl)).append _).cons _
    | isNull x p q => exact ((EndsOperand.single (Or.inl rfl)).cons _).append _
    | paren l x r => exact ((EndsOperand.single (Or.inl rfl)).append _).cons _

end SqlFormatter
