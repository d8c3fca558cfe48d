import Mathlib.Data.List.Chain
import SqlFormatter.Proofs.Grammar.Canonical
import SqlFormatter.Proofs.Grammar.Yield

/-!
# SqlFormatter.Proofs.Grammar.Neighbours

What stands next to what in the words of a tree.

* `Gathers P First`: the property `P` of words is kept where the parts of a tree are put together.
  The trees are gone through once, for any such property: `Gathers.yield` for expressions and
  `Gathers.statement` for statements.
* `Tidy`: no number stands right behind a name, and the last word is no left parenthesis. So where a
  number may stand, a left parenthesis is the start of an expression in parentheses and not of an
  argument list.
* `Apart (.keyword .NULL) (.keyword .IS)`: no test for null is tested for null. That holds of
  canonical trees only (`Statement.testedOnce_yield`).
-/

namespace SqlFormatter

/-- No word of the kind `b` stands right behind one of the kind `a`. -/
def Apart (a b : Kind) (ws : List Word) : Prop := ws.IsChain fun v w => ¬(v.kind = a ∧ w.kind = b)

namespace Apart

variable {a b : Kind} {w : Word} {ws vs : List Word}

theorem single (w : Word) : Apart a b [w] := List.isChain_singleton w

theorem append (h : Apart a b ws) (h' : Apart a b vs) (hvs : ∀ v ∈ vs.head?, v.kind ≠ b) :
    Apart a b (ws ++ vs) :=
  List.IsChain.append h h' fun _ _ v hv hboth => hvs v hv hboth.2

theorem cons (h : Apart a b ws) (hw : w.kind ≠ a) : Apart a b (w :: ws) :=
  List.isChain_cons.2 ⟨fun _ _ hboth => hw hboth.1, h⟩

theorem of_infix (h : Apart a b ws) (hvs : vs <:+: ws) : Apart a b vs := List.IsChain.infix h hvs

end Apart

/-- A word of one spelling that stands between the parts of a tree, but not in a test for null. -/
def Separates (k : Kind) : Prop :=
  k.keepsText = false ∧ k ≠ .endOfInput ∧ k ≠ .keyword .IS ∧ k ≠ .keyword .NULL

instance (k : Kind) : Decidable (Separates k) := inferInstanceAs (Decidable (_ ∧ _))

/-- The property `P` of words is kept where the parts of a tree are put together. A word that is
`First` may stand behind anything. -/
structure Gathers (P : List Word → Prop) (First : Word → Prop) : Prop where
  /-- One word. -/
  single : ∀ {w}, w.kind ≠ .leftParen → w.kind ≠ .endOfInput → P [w]
  /-- Two parts. -/
  append : ∀ {ws vs}, P ws → P vs → (∀ v ∈ vs.head?, First v) → P (ws ++ vs)
  /-- A part behind a separator. -/
  cons : ∀ {k ws}, Separates k → P ws → P (.fixed k :: ws)
  /-- A separator may stand behind anything. -/
  first : ∀ {k}, Separates k → First (.fixed k)

namespace Gathers

variable {P : List Word → Prop} {First : Word → Prop} {ws vs : List Word} {k : Kind}

/-- A part of a tree that may stand behind any other. -/
structure Separate (P : List Word → Prop) (First : Word → Prop) (ws : List Word) : Prop where
  whole : P ws
  head : ∀ w ∈ ws.head?, First w

section Pieces

variable (h : Gathers P First)
include h

/-- The word of a name. -/
theorem name (n : Name) : P [(Leaf.ofName n).word] :=
  h.single (by simp [Leaf.ofName]) (by simp [Leaf.ofName])

/-- A separator at the end. -/
theorem last (hk : Separates k) (hparen : k ≠ .leftParen) : P [.fixed k] := h.single hparen hk.2.1

/-- A part that starts with a separator. -/
theorem behind (hws : P ws) (hk : Separates k) : Separate P First (.fixed k :: ws) where
  whole := h.cons hk hws
  head w hw := by
    obtain rfl : Word.fixed k = w := by simpa using hw
    exact h.first hk

theorem between (hws : P ws) (hvs : P vs) (hk : Separates k) : P (ws ++ .fixed k :: vs) :=
  h.append hws (h.behind hvs hk).whole (h.behind hvs hk).head

theorem closed (hws : P ws) (hk : Separates k) (hparen : k ≠ .leftParen) : P (ws ++ [.fixed k]) :=
  h.append hws (h.last hk hparen) fun v hv => by
    cases hv
    exact h.first hk

/-- Parts that each start with a separator. -/
theorem flatMap {α : Type} {f : α → List Word} {xs : List α} (hws : P ws)
    (hxs : ∀ x ∈ xs, Separate P First (f x)) : P (ws ++ xs.flatMap f) := by
  induction xs generalizing ws with
  | nil => rwa [List.flatMap_nil, List.append_nil]
  | cons x xs ih =>
    obtain ⟨hx, hxs⟩ := List.forall_mem_cons.1 hxs
    rw [List.flatMap_cons, ← List.append_assoc]
    exact ih (h.append hws hx.whole hx.head) hxs

/-- A part that may be left out and starts with a separator. -/
theorem optional {α : Type} {f : α → List Word} {x : Option α} (hws : P ws)
    (hx : ∀ y ∈ x, Separate P First (f y)) : P (ws ++ x.elim [] f) := by
  cases x with
  | none => rwa [Option.elim_none, List.append_nil]
  | some y => exact h.append hws (hx y rfl).whole (hx y rfl).head

/-- A list with commas. -/
theorem list {α : Type} {leaves : α → List Leaf} {x : α} {xs : List α}
    (hxs : ∀ y ∈ x :: xs, P ((leaves y).map Leaf.word)) :
    P ((Leaf.list leaves (x :: xs)).map Leaf.word) := by
  obtain ⟨hx, hxs⟩ := List.forall_mem_cons.1 hxs
  rw [Leaf.list, List.map_append, List.map_flatMap]
  exact h.flatMap hx fun y hy => h.behind (hxs y hy) (by decide)

/-! ### Expressions -/

theorem arm {a : Arm} (hcond : P a.cond.yield) (hresult : P a.result.yield) :
    Separate P First (a.leaves.map Leaf.word) := by
  rw [Arm.leaves, List.map_cons, List.map_append, List.map_cons]
  exact h.behind (h.between hcond hresult (k := .keyword .THEN) (by decide))
    (k := .keyword .WHEN) (by decide)

/-- A choice without its END, of which the arms may be missing as well. -/
theorem choice {key : Option Expr} {arms : List Arm} {last : Option Otherwise}
    (hkey : ∀ k ∈ key, P k.yield) (harms : ∀ a ∈ arms, P a.cond.yield ∧ P a.result.yield)
    (hlast : ∀ o ∈ last, P o.result.yield) :
    P (.fixed (.keyword .CASE) :: (key.elim [] Expr.leaves ++ arms.flatMap Arm.leaves ++
      last.elim [] Otherwise.leaves).map Leaf.word) := by
  have hwords : Word.fixed (.keyword .CASE) :: (key.elim [] Expr.leaves ++
      arms.flatMap Arm.leaves ++ last.elim [] Otherwise.leaves).map Leaf.word =
      [Word.fixed (.keyword .CASE)] ++ key.elim [] Expr.yield ++
        arms.flatMap (fun a => a.leaves.map Leaf.word) ++
        last.elim [] fun o => o.leaves.map Leaf.word := by
    cases key <;> cases last <;> simp [List.map_flatMap, Expr.yield]
  have hstart : P ([Word.fixed (.keyword .CASE)] ++ key.elim [] Expr.yield) := by
    cases key with
    | none => exact h.single (by decide) (by decide)
    | some k => exact h.cons (k := .keyword .CASE) (by decide) (hkey k rfl)
  rw [hwords]
  exact h.optional (h.flatMap hstart fun a ha => h.arm (harms a ha).1 (harms a ha).2)
    fun o ho => h.behind (hlast o ho) (k := .keyword .ELSE) (by decide)

/-- All expressions have the property, if it is kept by tests for null. -/
theorem yield {e : Expr}
    (hnull : ∀ x p q, .isNull x p q ∈ e.nodes → P x.yield →
      P (x.yield ++ [.fixed (.keyword .IS), .fixed (.keyword .NULL)])) : P e.yield := by
  induction e using Expr.childInduction with
  | step e ih =>
    have ih : ∀ c ∈ e.children, P c.yield := fun c hc => ih c hc fun x p q hx =>
      hnull x p q (Expr.mem_nodes_of_mem_children hc hx)
    unfold Expr.yield at *
    cases e with
    | column q n =>
      cases q with
      | none => exact h.name n
      | some q => exact h.between (h.name q) (h.name n) (k := .dot) (by decide)
    | literal p k text =>
      have hkind : k.kind ≠ .leftParen ∧ k.kind ≠ .endOfInput := by cases k <;> decide
      exact h.single (w := ⟨k.kind, text⟩) hkind.1 hkind.2
    | wildcard p => exact h.last (k := .star) (by decide) (by decide)
    | unary p op x =>
      exact h.cons (k := op.kind) (by cases op <;> decide) (ih x (by simp [Expr.children]))
    | binary x p op y =>
      have hx := ih x (by simp [Expr.children])
      have hy := ih y (by simp [Expr.children])
      rw [Expr.leaves, List.map_append]
      exact h.between hx hy (k := op.kind) (by cases op <;> decide)
    | call f l args r =>
      rw [Expr.leaves_call]
      refine h.between (h.name f) (k := .leftParen) ?_ (by decide)
      cases args with
      | nil => exact h.last (k := .rightParen) (by decide) (by decide)
      | cons a as =>
        rw [List.map_append]
        exact h.closed (h.list ih) (k := .rightParen) (by decide) (by decide)
    | case p key first others last q =>
      obtain ⟨ihkey, iharms, ihlast⟩ := Expr.forall_children_case.1 ih
      rw [Expr.leaves_case, List.map_cons, List.map_append]
      exact h.closed (h.choice ihkey iharms ihlast) (k := .keyword .END) (by decide) (by decide)
    | isNull x p q =>
      rw [Expr.leaves, List.map_append]
      exact hnull x p q (Expr.mem_nodes_self _) (ih x (by simp [Expr.children]))
    | paren l x r =>
      rw [Expr.leaves, List.map_cons, List.map_append]
      exact h.cons (k := .leftParen) (by decide)
        (h.closed (ih x (by simp [Expr.children])) (k := .rightParen) (by decide) (by decide))

/-! ### Statements -/

theorem asName (a : Alias) : Separate P First (a.leaves.map Leaf.word) :=
  h.behind (h.name a.name) (k := .keyword .AS) (by decide)

theorem column {c : Column} (hexpr : P c.expr.yield) : P (c.leaves.map Leaf.word) := by
  have halias : (c.asName.elim [] Alias.leaves).map Leaf.word =
      c.asName.elim [] fun a => a.leaves.map Leaf.word := by cases c.asName <;> rfl
  rw [Column.leaves, List.map_append, halias]
  exact h.optional hexpr fun a _ => h.asName a

theorem table (t : Table) : P (t.leaves.map Leaf.word) := by
  have halias : (t.asName.elim [] Alias.leaves).map Leaf.word =
      t.asName.elim [] fun a => a.leaves.map Leaf.word := by cases t.asName <;> rfl
  rw [Table.leaves, List.map_cons, halias]
  exact h.optional (h.name t.name) fun a _ => h.asName a

theorem selectClause {c : SelectClause} (hexprs : ∀ x ∈ c.columns.toList, P x.expr.yield) :
    Separate P First (c.leaves.map Leaf.word) := by
  have hcolumns : P ((Leaf.list Column.leaves c.columns.toList).map Leaf.word) :=
    h.list fun x hx => h.column (hexprs x hx)
  exact h.behind hcolumns (k := .keyword .SELECT) (by decide)

theorem fromClause (c : FromClause) : Separate P First (c.leaves.map Leaf.word) := by
  have htables : P ((Leaf.list Table.leaves c.tables.toList).map Leaf.word) :=
    h.list fun x _ => h.table x
  exact h.behind htables (k := .keyword .FROM) (by decide)

theorem whereClause {c : WhereClause} (hcond : P c.cond.yield) :
    Separate P First (c.leaves.map Leaf.word) := h.behind hcond (k := .keyword .WHERE) (by decide)

theorem byClause {k : Keyword} (hk : Separates (.keyword k)) {c : ByClause}
    (hexprs : ∀ x ∈ c.items.toList, P x.yield) :
    Separate P First ((c.leaves k).map Leaf.word) := by
  have hitems : P ((Leaf.list Expr.leaves c.items.toList).map Leaf.word) := h.list hexprs
  exact h.behind (h.behind hitems (k := .keyword .BY) (by decide)).whole hk

theorem statement {s : Statement} (hexprs : ∀ e ∈ s.exprs, P e.yield) : P s.yield := by
  obtain ⟨hselect, hwhere, hgroup, horder⟩ := Statement.forall_exprs_iff.1 hexprs
  have hcond : (s.whereClause.elim [] WhereClause.leaves).map Leaf.word =
      s.whereClause.elim [] fun c => c.leaves.map Leaf.word := by cases s.whereClause <;> rfl
  have hby : ∀ k (c : Option ByClause), (c.elim [] (ByClause.leaves k)).map Leaf.word =
      c.elim [] fun c => (c.leaves k).map Leaf.word := by
    intro k c
    cases c <;> rfl
  have htables := h.fromClause s.fromClause
  rw [Statement.yield, Statement.leaves, List.map_append, List.map_append, List.map_append,
    List.map_append, hcond, hby, hby]
  have hclauses := h.append (h.selectClause hselect).whole htables.whole htables.head
  have hconds := h.optional hclauses fun c hc => h.whereClause (hwhere c hc)
  have hgroups := h.optional hconds fun c hc => h.byClause (k := .GROUP) (by decide) (hgroup c hc)
  exact h.optional hgroups fun c hc => h.byClause (k := .ORDER) (by decide) (horder c hc)

end Pieces

end Gathers

/-! ### Numbers behind names -/

/-- The words can be those of a part of a statement. -/
structure Tidy (ws : List Word) : Prop where
  /-- The last word is no left parenthesis. -/
  ends : ∃ w, ws.getLast? = some w ∧ w.kind ≠ .leftParen
  /-- No number stands right behind a name. -/
  apart : Apart .ident .integer ws
  /-- No word is the end of input. -/
  proper : ∀ w ∈ ws, w.kind ≠ .endOfInput

namespace Tidy

variable {w : Word} {ws vs : List Word}

theorem single (hend : w.kind ≠ .leftParen) (hproper : w.kind ≠ .endOfInput) : Tidy [w] where
  ends := ⟨w, rfl, hend⟩
  apart := .single w
  proper := List.forall_mem_singleton.2 hproper

/-- In front of anything but a number. -/
theorem append (h : Tidy ws) (h' : Tidy vs) (hvs : ∀ v ∈ vs.head?, v.kind ≠ .integer) :
    Tidy (ws ++ vs) where
  ends := by
    obtain ⟨v, hv, hkind⟩ := h'.ends
    exact ⟨v, List.mem_getLast?_append_of_mem_getLast? hv, hkind⟩
  apart := h.apart.append h'.apart hvs
  proper := List.forall_mem_append.2 ⟨h.proper, h'.proper⟩

/-- Behind a word that is no name. -/
theorem cons (h : Tidy ws) (hname : w.kind ≠ .ident) (hproper : w.kind ≠ .endOfInput) :
    Tidy (w :: ws) where
  ends := by
    obtain ⟨v, hv, hkind⟩ := h.ends
    exact ⟨v, @List.mem_getLast?_append_of_mem_getLast? _ [w] _ _ hv, hkind⟩
  apart := h.apart.cons hname
  proper := List.forall_mem_cons.2 ⟨hproper, h.proper⟩

theorem gathers : Gathers Tidy fun w => w.kind ≠ .integer where
  single := single
  append := append
  cons := by
    rintro k ws ⟨htext, hend, -⟩ hws
    exact hws.cons (by rintro rfl; cases htext) hend
  first := by
    rintro k ⟨htext, -⟩ rfl
    cases htext

end Tidy

theorem Expr.tidy_yield (e : Expr) : Tidy e.yield := by
  refine Tidy.gathers.yield fun x p q _ hx => hx.append ?_ (by simp [Word.fixed])
  have hnull : Tidy [Word.fixed (.keyword .NULL)] := .single (by decide) (by decide)
  exact hnull.cons (by decide) (by decide)

theorem Statement.tidy_yield (s : Statement) : Tidy s.yield :=
  Tidy.gathers.statement fun e _ => e.tidy_yield

/-! ### Tests for null behind tests for null -/

/-- No word IS stands right behind a word NULL. -/
def TestedOnce (ws : List Word) : Prop := Apart (.keyword .NULL) (.keyword .IS) ws

theorem TestedOnce.gathers : Gathers TestedOnce fun w => w.kind ≠ .keyword .IS where
  single := fun _ _ => .single _
  append := Apart.append
  cons := fun hk hws => hws.cons hk.2.2.2
  first := fun hk => hk.2.2.1

/-- The last word of an operand is not NULL. -/
theorem Expr.getLast?_yield_ne_null {e : Expr} (hcanonical : e.Canonical) (hoperand : e.isOperand) :
    ∀ w ∈ e.yield.getLast?, w.kind ≠ .keyword .NULL := by
  induction e using childInduction with
  | step e ih =>
    unfold yield at *
    intro w hw
    cases e with
    | binary | isNull => cases hoperand
    | column q n =>
      cases q <;>
      · cases hw
        rintro ⟨⟩
    | literal p k text =>
      cases hw
      cases k <;> rintro ⟨⟩
    | wildcard p =>
      cases hw
      rintro ⟨⟩
    | unary p op x =>
      obtain ⟨hoperand, hx⟩ := canonical_unary.1 hcanonical
      have hne : x.leaves.map Leaf.word ≠ [] := by
        obtain ⟨v, hv, -⟩ := x.tidy_yield.ends
        rintro hnil
        rw [yield, hnil] at hv
        cases hv
      rw [leaves, List.map_cons, List.getLast?_cons_of_ne_nil hne] at hw
      exact ih x (by simp [children]) hx hoperand w hw
    | call f l args r =>
      rw [leaves_call, List.map_cons, List.map_cons, List.map_append, ← List.cons_append,
        ← List.cons_append, List.map_singleton, List.getLast?_concat] at hw
      cases hw
      rintro ⟨⟩
    | case p key first others last q =>
      rw [leaves_case, List.map_cons, List.map_append, ← List.cons_append, List.map_singleton,
        List.getLast?_concat] at hw
      cases hw
      rintro ⟨⟩
    | paren l x r =>
      rw [leaves, List.map_cons, List.map_append, ← List.cons_append, List.map_singleton,
        List.getLast?_concat] at hw
      cases hw
      rintro ⟨⟩

theorem Expr.testedOnce_yield {e : Expr} (h : e.Canonical) : TestedOnce e.yield := by
  refine TestedOnce.gathers.yield fun x p q hx hyield => ?_
  obtain ⟨hoperand, hcanonical⟩ := canonical_isNull.1 (h.of_mem_nodes hx)
  have htest : TestedOnce [.fixed (.keyword .IS), .fixed (.keyword .NULL)] :=
    Apart.cons (.single _) (by decide)
  exact List.IsChain.append hyield htest fun v hv _ _ hboth =>
    getLast?_yield_ne_null hcanonical hoperand v hv hboth.1

theorem Statement.testedOnce_yield {s : Statement} (h : s.Canonical) : TestedOnce s.yield :=
  TestedOnce.gathers.statement fun e he => Expr.testedOnce_yield (h e he)

end SqlFormatter
