import Mathlib.Data.List.Infix
import SqlFormatter.Proofs.Grammar.Yield
import SqlFormatter.Proofs.Token.Width
import SqlFormatter.Statement.Range

/-!
# SqlFormatter.Proofs.Statement.Node

The nodes of a statement with the ranges that they report, and what each is made of: tokens and
other nodes, in the order of the source.

* `Statement.subtrees` lists the nodes.
* Leaves open at the position of the first and close at the end of the last. The nodes and their
  parts report just these (`Node.Spanned`), though they compute the ends from what they have at
  hand.
* The leaves of each node stand in one stretch in the statement
  (`Statement.liesIn_of_mem_subtrees`).
-/

namespace SqlFormatter

/-! ### Leaves in the source -/

/-- The number of bytes of a token of the word. -/
def Word.width? (w : Word) : Option Nat :=
  if w.kind.keepsText then some (byteLength w.text.toList) else w.kind.width?

/-- The piece of source of the leaf, if the tree has a position for it. -/
def Leaf.range? (l : Leaf) : Option Range :=
  l.pos.bind fun p => l.word.width?.map fun n => ⟨p, p + n⟩

/-! ### Spans -/

/-- The first leaf is at `p`. -/
def OpensAt (ls : List Leaf) (p : Nat) : Prop := ls.head?.bind Leaf.pos = some p

/-- The last leaf ends at `q`. -/
def ClosesAt (ls : List Leaf) (q : Nat) : Prop :=
  (ls.getLast?.bind Leaf.range?).map Range.stop = some q

section Spans

variable {ls : List Leaf} {l : Leaf} {p q : Nat}

theorem OpensAt.append (h : OpensAt ls p) (more : List Leaf) : OpensAt (ls ++ more) p := by
  cases ls with
  | nil => cases h
  | cons l ls => exact h

theorem ClosesAt.append (h : ClosesAt ls q) (more : List Leaf) : ClosesAt (more ++ ls) q := by
  cases ls with
  | nil => cases h
  | cons l ls =>
    rw [ClosesAt, List.getLast?_append_of_ne_nil _ (List.cons_ne_nil l ls)]
    exact h

theorem ClosesAt.cons (h : ClosesAt ls q) (l : Leaf) : ClosesAt (l :: ls) q := h.append [l]

theorem closes_ofName (n : Name) : ClosesAt [.ofName n] n.stop := rfl

theorem closes_fixed {k : Kind} {n : Nat} (hk : k.keepsText = false) (hn : k.width? = some n)
    (p : Nat) : ClosesAt [.fixed p k] (p + n) := by
  simp [ClosesAt, Leaf.range?, Leaf.fixed, Word.width?, Word.fixed, hk, hn]

/-- A list ends where its last item does. -/
theorem closes_list {α : Type} {f : α → List Leaf} {g : α → Nat} {xs : NonemptyList α}
    (h : ∀ x ∈ xs.toList, ClosesAt (f x) (g x)) : ClosesAt (Leaf.list f xs.toList) (g xs.last) := by
  obtain ⟨front, hfront⟩ := List.getLast?_eq_some_iff.1 xs.getLast?_toList
  rw [hfront, Leaf.list_append_singleton]
  exact (h _ (by rw [hfront]; simp)).append _

end Spans

/-! ### Nodes -/

/-- A token or a node, as a part of a node. -/
structure Constituent where
  /-- Its leaves. -/
  leaves : List Leaf
  /-- The piece of source that it reports; none for a token without position. -/
  range : Option Range

/-- A node, with the piece of source that it reports and its parts in order. -/
structure Node where
  /-- The piece of source. -/
  range : Range
  /-- The parts. -/
  parts : List Constituent

namespace Constituent

/-- The token of a leaf. -/
def token (l : Leaf) : Constituent := ⟨[l], l.range?⟩

/-- The items, with commas between them. -/
def list {α : Type} (item : α → Constituent) : List α → List Constituent
  | [] => []
  | x :: xs => item x :: xs.flatMap fun y => [token .comma, item y]

/-- The range, if there is one, reaches from the first leaf to the end of the last one. -/
def Spanned (c : Constituent) : Prop :=
  ∀ r ∈ c.range, OpensAt c.leaves r.pos ∧ ClosesAt c.leaves r.stop

theorem spanned_token (l : Leaf) : (token l).Spanned := by
  intro r hr
  have hr' : l.range? = some r := hr
  obtain ⟨p, hp, hwidth⟩ := Option.bind_eq_some_iff.1 hr'
  obtain ⟨n, -, rfl⟩ := Option.map_eq_some_iff.1 hwidth
  exact ⟨hp, by simp [ClosesAt, token, hr']⟩

theorem spanned_list {α : Type} {item : α → Constituent} {xs : List α}
    (h : ∀ x ∈ xs, (item x).Spanned) : ∀ c ∈ list item xs, c.Spanned := by
  cases xs with
  | nil => exact nofun
  | cons x xs =>
    obtain ⟨hx, hxs⟩ := List.forall_mem_cons.1 h
    refine List.forall_mem_cons.2 ⟨hx, List.forall_mem_flatMap.2 fun y hy => ?_⟩
    exact List.forall_mem_cons.2 ⟨spanned_token _, List.forall_mem_singleton.2 (hxs y hy)⟩

theorem flatMap_leaves_list {α : Type} (item : α → Constituent) (xs : List α) :
    (list item xs).flatMap leaves = Leaf.list (fun x => (item x).leaves) xs := by
  cases xs with
  | nil => rfl
  | cons x xs => simp [list, Leaf.list, List.flatMap_assoc, token]

theorem mem_list {α : Type} {item : α → Constituent} {xs : List α} {x : α} (h : x ∈ xs) :
    item x ∈ list item xs := by
  cases xs with
  | nil => cases h
  | cons y ys =>
    rcases List.mem_cons.1 h with rfl | h
    · exact List.mem_cons_self
    · exact List.mem_cons_of_mem _ (List.mem_flatMap.2 ⟨x, h, by simp⟩)

end Constituent

namespace Node

/-- The leaves of all parts. -/
def leaves (n : Node) : List Leaf := n.parts.flatMap Constituent.leaves

theorem leaves_mk (r : Range) (parts : List Constituent) :
    (mk r parts).leaves = parts.flatMap Constituent.leaves := rfl

/-- The node as a part of another. -/
def whole (n : Node) : Constituent := ⟨n.leaves, some n.range⟩

/-- The ranges of the node and of its parts reach from their first leaf to the end of their last
one. -/
def Spanned (n : Node) : Prop := n.whole.Spanned ∧ ∀ c ∈ n.parts, c.Spanned

theorem leaves_infix_of_mem_parts {n : Node} {c : Constituent} (h : c ∈ n.parts) :
    c.leaves <:+: n.leaves := by
  obtain ⟨front, behind, hparts⟩ := List.append_of_mem h
  refine ⟨front.flatMap Constituent.leaves, behind.flatMap Constituent.leaves, ?_⟩
  rw [leaves, hparts, List.flatMap_append, List.flatMap_cons, List.append_assoc]

/-- The leaves of the node stand in one stretch among `ls`, and its ranges reach as they should. -/
def LiesIn (n : Node) (ls : List Leaf) : Prop := n.leaves <:+: ls ∧ n.Spanned

theorem LiesIn.trans {n : Node} {ls ls' : List Leaf} (h : n.LiesIn ls) (hls : ls <:+: ls') :
    n.LiesIn ls' :=
  ⟨h.1.trans hls, h.2⟩

theorem Spanned.liesIn {n m : Node} (hn : n.Spanned) (h : n.whole ∈ m.parts) : n.LiesIn m.leaves :=
  ⟨leaves_infix_of_mem_parts h, hn⟩

theorem spanned_whole_iff {n : Node} :
    n.whole.Spanned ↔ OpensAt n.leaves n.range.pos ∧ ClosesAt n.leaves n.range.stop := by
  simp [Constituent.Spanned, whole]

end Node

open Constituent (token list)

/-! ### Expressions -/

/-- The expression as a part of a node. -/
def Expr.whole (e : Expr) : Constituent := ⟨e.leaves, some e.range⟩

/-- The node of the arm. -/
def Arm.node (a : Arm) : Node where
  range := a.range
  parts := [token (.fixed a.pos (.keyword .WHEN)), a.cond.whole,
    token (.fixed a.thenPos (.keyword .THEN)), a.result.whole]

/-- The node of the last part of a choice. -/
def Otherwise.node (o : Otherwise) : Node where
  range := o.range
  parts := [token (.fixed o.pos (.keyword .ELSE)), o.result.whole]

namespace Expr

/-- The node at the root of the expression. -/
def node (e : Expr) : Node where
  range := e.range
  parts :=
    match e with
    | column none name => [token (.ofName name)]
    | column (some table) name => [token (.ofName table), token .dot, token (.ofName name)]
    | literal p k text => [token ⟨some p, ⟨k.kind, text⟩⟩]
    | wildcard p => [token (.fixed p .star)]
    | unary p op x => [token (.fixed p op.kind), x.whole]
    | binary x p op y => [x.whole, token (.fixed p op.kind), y.whole]
    | call f l args r =>
      token (.ofName f) :: token (.fixed l .leftParen) ::
        (list whole args ++ [token (.fixed r .rightParen)])
    | case p key first others otherwise q =>
      token (.fixed p (.keyword .CASE)) ::
        (key.toList.map whole ++ (first :: others).map (·.node.whole) ++
          otherwise.toList.map (·.node.whole) ++ [token (.fixed q (.keyword .END))])
    | isNull x p q =>
      [x.whole, token (.fixed p (.keyword .IS)), token (.fixed q (.keyword .NULL))]
    | paren l x r => [token (.fixed l .leftParen), x.whole, token (.fixed r .rightParen)]

/-- The nodes of the arms and of the last part of a choice. -/
def innerNodes : Expr → List Node
  | case _ _ first others otherwise _ =>
    (first :: others).map Arm.node ++ otherwise.toList.map Otherwise.node
  | _ => []

/-- All nodes of the expression. -/
def subtrees (e : Expr) : List Node := e.nodes.flatMap fun x => x.node :: x.innerNodes

end Expr

theorem Arm.leaves_node (a : Arm) : a.node.leaves = a.leaves := by
  simp [Node.leaves, Arm.node, token, Expr.whole, Arm.leaves]

theorem Otherwise.leaves_node (o : Otherwise) : o.node.leaves = o.leaves := by
  simp [Node.leaves, Otherwise.node, token, Expr.whole, Otherwise.leaves]

namespace Expr

theorem leaves_node (e : Expr) : e.node.leaves = e.leaves := by
  cases e with
  | column q n => cases q <;> rfl
  | literal | wildcard => rfl
  | unary | binary | isNull | paren => simp [Node.leaves, node, token, whole, leaves]
  | call f l args r =>
    simp [Node.leaves, node, leaves_call, Constituent.flatMap_leaves_list, token, whole]
  | case p key first others otherwise q =>
    simp only [Node.leaves, node, leaves_case, List.flatMap_cons, List.flatMap_append]
    cases key <;> cases otherwise <;>
      simp [token, whole, Node.whole, List.flatMap_map, Arm.leaves_node, Otherwise.leaves_node]

theorem opens (e : Expr) : OpensAt e.leaves e.pos := by
  induction e using childInduction with
  | step e ih =>
    cases e with
    | column q n => cases q <;> rfl
    | literal | wildcard | unary | paren => rfl
    | binary x p op y => exact (ih x (by simp [children])).append _
    | call => rw [leaves_call]; rfl
    | case => rw [leaves_case]; rfl
    | isNull x p q => exact (ih x (by simp [children])).append _

theorem closes (e : Expr) : ClosesAt e.leaves e.stop := by
  induction e using childInduction with
  | step e ih =>
    cases e with
    | column q n => cases q <;> rfl
    | literal p k text => cases k <;> rfl
    | wildcard => rfl
    | unary p op x => exact (ih x (by simp [children])).cons _
    | binary x p op y => exact ((ih y (by simp [children])).cons _).append _
    | call f l args r =>
      rw [leaves_call]
      exact (((closes_fixed rfl rfl r).append _).cons _).cons _
    | case p key first others otherwise q =>
      rw [leaves_case]
      exact ((closes_fixed rfl rfl q).append _).cons _
    | isNull x p q => exact ((closes_fixed rfl rfl q).cons _).append _
    | paren l x r => exact ((closes_fixed rfl rfl r).append _).cons _

theorem spanned_whole (e : Expr) : e.whole.Spanned := by
  intro r hr
  cases hr
  exact ⟨e.opens, e.closes⟩

end Expr

theorem Arm.spanned_node (a : Arm) : a.node.Spanned := by
  refine ⟨Node.spanned_whole_iff.2 ?_, ?_⟩
  · rw [Arm.leaves_node]
    exact ⟨rfl, ((a.result.closes.cons _).append _).cons _⟩
  · simp [Arm.node, Constituent.spanned_token, Expr.spanned_whole]

theorem Otherwise.spanned_node (o : Otherwise) : o.node.Spanned := by
  refine ⟨Node.spanned_whole_iff.2 ?_, ?_⟩
  · rw [Otherwise.leaves_node]
    exact ⟨rfl, o.result.closes.cons _⟩
  · simp [Otherwise.node, Constituent.spanned_token, Expr.spanned_whole]

namespace Expr

theorem spanned_node (e : Expr) : e.node.Spanned := by
  refine ⟨Node.spanned_whole_iff.2 (by rw [leaves_node]; exact ⟨e.opens, e.closes⟩), ?_⟩
  have htoken := Constituent.spanned_token
  cases e with
  | column q n => cases q <;> simp [node, htoken]
  | literal | wildcard => simp [node, htoken]
  | unary | binary | isNull | paren => simp [node, htoken, spanned_whole]
  | call f l args r =>
    have hargs : ∀ c ∈ list whole args, c.Spanned :=
      Constituent.spanned_list fun x _ => spanned_whole x
    simpa [node, htoken, or_imp, forall_and] using hargs
  | case p key first others otherwise q =>
    simp only [node, List.forall_mem_cons, List.forall_mem_append, List.forall_mem_map,
      List.not_mem_nil, false_imp_iff, implies_true, and_true]
    exact ⟨htoken _, ⟨⟨fun k _ => k.spanned_whole, first.spanned_node.1,
      fun a _ => a.spanned_node.1⟩, fun o _ => o.spanned_node.1⟩, htoken _⟩

/-- A choice has nodes for its arms and its last part. -/
theorem innerNodes_cases {e : Expr} {n : Node} (h : n ∈ e.innerNodes) :
    n.whole ∈ e.node.parts ∧ ((∃ a : Arm, n = a.node) ∨ ∃ o : Otherwise, n = o.node) := by
  cases e with
  | case p key first others otherwise q =>
    rcases List.mem_append.1 h with h | h
    · obtain ⟨a, ha, rfl⟩ := List.mem_map.1 h
      refine ⟨?_, Or.inl ⟨a, rfl⟩⟩
      have hmem : a.node.whole ∈ (first :: others).map fun a => a.node.whole :=
        List.mem_map_of_mem (f := fun a : Arm => a.node.whole) ha
      simp only [node, List.mem_cons, List.mem_append]
      exact Or.inr (Or.inl (Or.inl (Or.inr hmem)))
    · obtain ⟨o, ho, rfl⟩ := List.mem_map.1 h
      refine ⟨?_, Or.inr ⟨o, rfl⟩⟩
      have hmem : o.node.whole ∈ otherwise.toList.map fun o => o.node.whole :=
        List.mem_map_of_mem (f := fun o : Otherwise => o.node.whole) ho
      simp only [node, List.mem_cons, List.mem_append]
      exact Or.inr (Or.inl (Or.inr hmem))
  | _ => cases h

theorem leaves_infix_of_mem_children {e c : Expr} (h : c ∈ e.children) :
    c.leaves <:+: e.leaves := by
  suffices hparts : ∀ c ∈ e.children,
      c.whole ∈ e.node.parts ∨ ∃ n ∈ e.innerNodes, c.whole ∈ n.parts by
    rw [← e.leaves_node]
    rcases hparts c h with hpart | ⟨n, hn, hpart⟩
    · exact Node.leaves_infix_of_mem_parts hpart
    · exact (Node.leaves_infix_of_mem_parts hpart).trans
        (Node.leaves_infix_of_mem_parts (innerNodes_cases hn).1)
  clear h
  cases e with
  | column | literal | wildcard => exact nofun
  | unary | binary | isNull | paren => simp [children, node]
  | call f l args r =>
    intro c hc
    have hmem : c.whole ∈ Constituent.list whole args := Constituent.mem_list hc
    simp [node, hmem]
  | case p key first others otherwise q =>
    refine forall_children_case.2 ⟨fun k hk => Or.inl ?_, fun a ha => ?_, fun o ho => Or.inr ?_⟩
    · obtain rfl : key = some k := hk
      simp [node]
    · have hnode : a.node ∈ (case p key first others otherwise q).innerNodes :=
        List.mem_append_left _ (List.mem_map_of_mem ha)
      exact ⟨Or.inr ⟨_, hnode, by simp [Arm.node]⟩, Or.inr ⟨_, hnode, by simp [Arm.node]⟩⟩
    · refine ⟨o.node, List.mem_append_right _ (List.mem_map_of_mem ?_), by simp [Otherwise.node]⟩
      exact Option.mem_toList.2 ho

theorem leaves_infix_of_mem_nodes {e x : Expr} (h : x ∈ e.nodes) : x.leaves <:+: e.leaves := by
  induction e using childInduction with
  | step e ih =>
    rw [nodes_eq] at h
    rcases List.mem_cons.1 h with rfl | h
    · exact List.infix_rfl
    · obtain ⟨c, hc, hx⟩ := List.mem_flatMap.1 h
      exact (ih c hc hx).trans (leaves_infix_of_mem_children hc)

theorem liesIn_of_mem_subtrees {e : Expr} {n : Node} (h : n ∈ e.subtrees) :
    n.LiesIn e.leaves := by
  obtain ⟨x, hx, h⟩ := List.mem_flatMap.1 h
  have hstretch := leaves_infix_of_mem_nodes hx
  rcases List.mem_cons.1 h with rfl | h
  · exact ⟨by rwa [leaves_node], x.spanned_node⟩
  · obtain ⟨hpart, hkind⟩ := innerNodes_cases h
    have hinner : n.leaves <:+: x.leaves := by
      rw [← x.leaves_node]
      exact Node.leaves_infix_of_mem_parts hpart
    refine ⟨hinner.trans hstretch, ?_⟩
    rcases hkind with ⟨a, rfl⟩ | ⟨o, rfl⟩
    · exact a.spanned_node
    · exact o.spanned_node

end Expr

/-! ### Statements -/

/-- The node of a name. -/
def Name.node (n : Name) : Node := ⟨n.range, [token (.ofName n)]⟩

/-- The node of the alias. -/
def Alias.node (a : Alias) : Node :=
  ⟨a.range, [token (.fixed a.asPos (.keyword .AS)), token (.ofName a.name)]⟩

/-- The node of the column. -/
def Column.node (c : Column) : Node :=
  ⟨c.range, c.expr.whole :: (c.asName.map (·.node.whole)).toList⟩

/-- The node of the table. -/
def Table.node (t : Table) : Node :=
  ⟨t.range, t.name.node.whole :: (t.asName.map (·.node.whole)).toList⟩

/-- The node of the SELECT clause. -/
def SelectClause.node (c : SelectClause) : Node :=
  ⟨c.range, token (.fixed c.pos (.keyword .SELECT)) :: list (·.node.whole) c.columns.toList⟩

/-- The node of the FROM clause. -/
def FromClause.node (c : FromClause) : Node :=
  ⟨c.range, token (.fixed c.pos (.keyword .FROM)) :: list (·.node.whole) c.tables.toList⟩

/-- The node of the WHERE clause. -/
def WhereClause.node (c : WhereClause) : Node :=
  ⟨c.range, [token (.fixed c.pos (.keyword .WHERE)), c.cond.whole]⟩

/-- The node of the clause of the keyword `k` and BY. -/
def ByClause.node (k : Keyword) (c : ByClause) : Node :=
  ⟨c.range, token (.fixed c.pos (.keyword k)) :: token (.fixed c.byPos (.keyword .BY)) ::
    list Expr.whole c.items.toList⟩

/-- The column and its alias. -/
def Column.ownNodes (c : Column) : List Node := c.node :: (c.asName.map Alias.node).toList

/-- The table, its name and its alias. -/
def Table.ownNodes (t : Table) : List Node :=
  t.node :: t.name.node :: (t.asName.map Alias.node).toList

namespace Statement

/-- The nodes of the clauses that the statement has, in order. -/
def clauseNodes (s : Statement) : List Node :=
  [s.select.node, s.fromClause.node] ++ (s.whereClause.map WhereClause.node).toList ++
    (s.groupBy.map (ByClause.node .GROUP)).toList ++ (s.orderBy.map (ByClause.node .ORDER)).toList

/-- The node of the statement. -/
def node (s : Statement) : Node := ⟨s.range, s.clauseNodes.map Node.whole⟩

/-- All nodes of the statement. -/
def subtrees (s : Statement) : List Node :=
  s.node :: s.clauseNodes ++ s.select.columns.toList.flatMap Column.ownNodes ++
    s.fromClause.tables.toList.flatMap Table.ownNodes ++ s.exprs.flatMap Expr.subtrees

end Statement

theorem Name.spanned_node (n : Name) : n.node.Spanned := by
  refine ⟨Node.spanned_whole_iff.2 ⟨rfl, rfl⟩, ?_⟩
  simp [Name.node, Constituent.spanned_token]

theorem Alias.leaves_node (a : Alias) : a.node.leaves = a.leaves := rfl

theorem Alias.closes (a : Alias) : ClosesAt a.leaves a.range.stop := (closes_ofName a.name).cons _

theorem Alias.spanned_node (a : Alias) : a.node.Spanned := by
  refine ⟨Node.spanned_whole_iff.2 ⟨rfl, a.closes⟩, ?_⟩
  simp [Alias.node, Constituent.spanned_token]

theorem Column.leaves_node (c : Column) : c.node.leaves = c.leaves := by
  rw [Column.node, Node.leaves_mk, Column.leaves]
  cases c.asName <;> simp [Expr.whole, Node.whole, Alias.leaves_node]

theorem Column.closes (c : Column) : ClosesAt c.leaves c.range.stop := by
  rw [Column.leaves, Column.range]
  cases c.asName with
  | none => simpa using c.expr.closes
  | some a => exact a.closes.append _

theorem Column.spanned_node (c : Column) : c.node.Spanned := by
  refine ⟨Node.spanned_whole_iff.2 ?_, ?_⟩
  · rw [Column.leaves_node]
    exact ⟨c.expr.opens.append _, c.closes⟩
  · cases h : c.asName <;> simp [Column.node, h, Expr.spanned_whole, (Alias.spanned_node _).1]

theorem Table.leaves_node (t : Table) : t.node.leaves = t.leaves := by
  rw [Table.node, Node.leaves_mk, Table.leaves]
  cases t.asName <;> simp [Name.node, Node.leaves_mk, Node.whole, Alias.leaves_node, token]

theorem Table.closes (t : Table) : ClosesAt t.leaves t.range.stop := by
  rw [Table.leaves, Table.range]
  cases t.asName with
  | none => exact closes_ofName t.name
  | some a => exact a.closes.cons _

theorem Table.spanned_node (t : Table) : t.node.Spanned := by
  refine ⟨Node.spanned_whole_iff.2 (by rw [Table.leaves_node]; exact ⟨rfl, t.closes⟩), ?_⟩
  cases h : t.asName <;>
    simp [Table.node, h, (Name.spanned_node _).1, (Alias.spanned_node _).1]

theorem SelectClause.leaves_node (c : SelectClause) : c.node.leaves = c.leaves := by
  rw [SelectClause.node, Node.leaves_mk, List.flatMap_cons, Constituent.flatMap_leaves_list]
  simp [SelectClause.leaves, Node.whole, Column.leaves_node, token]

theorem SelectClause.closes (c : SelectClause) : ClosesAt c.leaves c.range.stop :=
  (closes_list (g := fun x : Column => x.range.stop) fun x _ => x.closes).cons _

theorem SelectClause.spanned_node (c : SelectClause) : c.node.Spanned :=
  ⟨Node.spanned_whole_iff.2 (by rw [SelectClause.leaves_node]; exact ⟨rfl, c.closes⟩),
    List.forall_mem_cons.2 ⟨Constituent.spanned_token _,
      Constituent.spanned_list fun x _ => x.spanned_node.1⟩⟩

theorem FromClause.leaves_node (c : FromClause) : c.node.leaves = c.leaves := by
  rw [FromClause.node, Node.leaves_mk, List.flatMap_cons, Constituent.flatMap_leaves_list]
  simp [FromClause.leaves, Node.whole, Table.leaves_node, token]

theorem FromClause.closes (c : FromClause) : ClosesAt c.leaves c.range.stop :=
  (closes_list (g := fun x : Table => x.range.stop) fun x _ => x.closes).cons _

theorem FromClause.spanned_node (c : FromClause) : c.node.Spanned :=
  ⟨Node.spanned_whole_iff.2 (by rw [FromClause.leaves_node]; exact ⟨rfl, c.closes⟩),
    List.forall_mem_cons.2 ⟨Constituent.spanned_token _,
      Constituent.spanned_list fun x _ => x.spanned_node.1⟩⟩

theorem WhereClause.leaves_node (c : WhereClause) : c.node.leaves = c.leaves := by
  simp [WhereClause.node, Node.leaves_mk, WhereClause.leaves, Expr.whole, token]

theorem WhereClause.closes (c : WhereClause) : ClosesAt c.leaves c.range.stop :=
  c.cond.closes.cons _

theorem WhereClause.spanned_node (c : WhereClause) : c.node.Spanned := by
  refine ⟨Node.spanned_whole_iff.2 (by rw [WhereClause.leaves_node]; exact ⟨rfl, c.closes⟩), ?_⟩
  simp [WhereClause.node, Constituent.spanned_token, Expr.spanned_whole]

theorem ByClause.leaves_node (k : Keyword) (c : ByClause) : (c.node k).leaves = c.leaves k := by
  rw [ByClause.node, Node.leaves_mk, List.flatMap_cons, List.flatMap_cons,
    Constituent.flatMap_leaves_list]
  rfl

theorem ByClause.closes (k : Keyword) (c : ByClause) : ClosesAt (c.leaves k) c.range.stop :=
  ((closes_list (g := Expr.stop) fun x _ => x.closes).cons _).cons _

theorem ByClause.spanned_node (k : Keyword) (c : ByClause) : (c.node k).Spanned :=
  ⟨Node.spanned_whole_iff.2 (by rw [ByClause.leaves_node]; exact ⟨rfl, c.closes k⟩),
    List.forall_mem_cons.2 ⟨Constituent.spanned_token _, List.forall_mem_cons.2
      ⟨Constituent.spanned_token _, Constituent.spanned_list fun x _ => x.spanned_whole⟩⟩⟩

namespace Statement

theorem leaves_node (s : Statement) : s.node.leaves = s.leaves := by
  rw [node, Node.leaves_mk, clauseNodes, leaves]
  cases s.whereClause <;> cases s.groupBy <;> cases s.orderBy <;>
    simp [Node.whole, SelectClause.leaves_node, FromClause.leaves_node, WhereClause.leaves_node,
      ByClause.leaves_node]

theorem spanned_of_mem_clauseNodes (s : Statement) : ∀ n ∈ s.clauseNodes, n.Spanned := by
  have hselect := s.select.spanned_node
  have hfrom := s.fromClause.spanned_node
  rw [clauseNodes]
  cases s.whereClause <;> cases s.groupBy <;> cases s.orderBy <;>
    simp [hselect, hfrom, WhereClause.spanned_node, ByClause.spanned_node]

theorem closes (s : Statement) : ClosesAt s.leaves s.range.stop := by
  rw [leaves, range]
  cases s.orderBy with
  | some c => exact (c.closes .ORDER).append _
  | none =>
    rw [Option.elim_none, List.append_nil]
    cases s.groupBy with
    | some c => exact (c.closes .GROUP).append _
    | none =>
      rw [Option.elim_none, List.append_nil]
      cases s.whereClause with
      | some c => exact c.closes.append _
      | none =>
        rw [Option.elim_none, List.append_nil]
        exact s.fromClause.closes.append _

theorem spanned_node (s : Statement) : s.node.Spanned :=
  ⟨Node.spanned_whole_iff.2 (by rw [leaves_node]; exact ⟨rfl, s.closes⟩),
    List.forall_mem_map.2 fun n hn => (s.spanned_of_mem_clauseNodes n hn).1⟩

theorem liesIn_of_mem_clauseNodes {s : Statement} {n : Node} (h : n ∈ s.clauseNodes) :
    n.LiesIn s.leaves := by
  rw [← s.leaves_node]
  exact (s.spanned_of_mem_clauseNodes n h).liesIn (List.mem_map_of_mem h)

theorem liesIn_column {s : Statement} {c : Column} (h : c ∈ s.select.columns.toList) :
    c.node.LiesIn s.leaves := by
  have hclause : s.select.node.LiesIn s.leaves := liesIn_of_mem_clauseNodes (by simp [clauseNodes])
  exact (c.spanned_node.liesIn (List.mem_cons_of_mem _ (Constituent.mem_list h))).trans hclause.1

theorem liesIn_table {s : Statement} {t : Table} (h : t ∈ s.fromClause.tables.toList) :
    t.node.LiesIn s.leaves := by
  have hclause : s.fromClause.node.LiesIn s.leaves :=
    liesIn_of_mem_clauseNodes (by simp [clauseNodes])
  exact (t.spanned_node.liesIn (List.mem_cons_of_mem _ (Constituent.mem_list h))).trans hclause.1

theorem leaves_infix_of_mem_exprs {s : Statement} : ∀ e ∈ s.exprs, e.leaves <:+: s.leaves := by
  have hby : ∀ k (b : ByClause), (b.node k).LiesIn s.leaves → ∀ e ∈ b.items.toList,
      e.leaves <:+: s.leaves := by
    intro k b hb e he
    have hmem : e.whole ∈ Constituent.list Expr.whole b.items.toList := Constituent.mem_list he
    have hpart : e.whole ∈ (b.node k).parts :=
      List.mem_cons_of_mem _ (List.mem_cons_of_mem _ hmem)
    exact (Node.leaves_infix_of_mem_parts hpart).trans hb.1
  refine forall_exprs_iff.2 ⟨fun c hc => ?_, fun w hw => ?_, fun b hb => ?_, fun b hb => ?_⟩
  · have hpart : c.expr.whole ∈ c.node.parts := List.mem_cons_self
    exact (Node.leaves_infix_of_mem_parts hpart).trans (liesIn_column hc).1
  · have hpart : w.cond.whole ∈ w.node.parts := by simp [WhereClause.node]
    have hclause : w.node ∈ s.clauseNodes := by
      obtain hw : s.whereClause = some w := hw
      simp [clauseNodes, hw]
    exact (Node.leaves_infix_of_mem_parts hpart).trans (liesIn_of_mem_clauseNodes hclause).1
  · obtain hb : s.groupBy = some b := hb
    exact hby .GROUP b (liesIn_of_mem_clauseNodes (by simp [clauseNodes, hb]))
  · obtain hb : s.orderBy = some b := hb
    exact hby .ORDER b (liesIn_of_mem_clauseNodes (by simp [clauseNodes, hb]))

/-- The leaves of each node stand in one stretch in the statement, and its ranges reach as they
should. -/
theorem liesIn_of_mem_subtrees {s : Statement} {n : Node} (h : n ∈ s.subtrees) :
    n.LiesIn s.leaves := by
  simp only [subtrees, List.mem_append, List.mem_cons, List.mem_flatMap] at h
  rcases h with (((rfl | h) | ⟨c, hc, h⟩) | ⟨t, ht, h⟩) | ⟨e, he, h⟩
  · exact ⟨by rw [leaves_node], s.spanned_node⟩
  · exact liesIn_of_mem_clauseNodes h
  · have hcolumn := liesIn_column hc
    rcases List.mem_cons.1 h with rfl | h
    · exact hcolumn
    · cases ha : c.asName with
      | none => simp [ha] at h
      | some a =>
        obtain rfl : n = a.node := by simpa [ha] using h
        exact (a.spanned_node.liesIn (by simp [Column.node, ha])).trans hcolumn.1
  · have htable := liesIn_table ht
    rcases List.mem_cons.1 h with rfl | h
    · exact htable
    rcases List.mem_cons.1 h with rfl | h
    · exact (t.name.spanned_node.liesIn List.mem_cons_self).trans htable.1
    · cases ha : t.asName with
      | none => simp [ha] at h
      | some a =>
        obtain rfl : n = a.node := by simpa [ha] using h
        exact (a.spanned_node.liesIn (by simp [Table.node, ha])).trans htable.1
  · exact (Expr.liesIn_of_mem_subtrees h).trans (leaves_infix_of_mem_exprs e he)

end Statement

end SqlFormatter
