import SqlFormatter.Proofs.Expr.Normal

/-!
# SqlFormatter.Proofs.Statement.Normal

Normal forms of statements: what may be compared of a statement and of what is read from its layout.

* `Statement.normalForm`: no positions, signs merged, and the comments as a list of texts.
* `Statement.bareForm`: in addition, no parentheses.
-/

namespace SqlFormatter

namespace Statement

/-- The statement with `f` applied to each expression that is not inside another. -/
def mapExprs (f : Expr → Expr) (s : Statement) : Statement :=
  { s with
    select :=
      { s.select with columns := s.select.columns.map fun c => { c with expr := f c.expr } }
    whereClause := s.whereClause.map fun w => { w with cond := f w.cond }
    groupBy := s.groupBy.map fun b => { b with items := b.items.map f }
    orderBy := s.orderBy.map fun b => { b with items := b.items.map f } }

/-- The statement without positions and with merged signs, and the texts of its comments. -/
def normalForm (s : Statement) : Statement × List String :=
  (s.shape.mapExprs Expr.mergeSigns, s.commentTexts)

/-- The normal form without parentheses. -/
def bareForm (s : Statement) : Statement × List String :=
  (s.normalForm.1.mapExprs Expr.eraseParens, s.normalForm.2)

theorem exprs_mapExprs (f : Expr → Expr) (s : Statement) :
    (s.mapExprs f).exprs = s.exprs.map f := by
  obtain ⟨select, fromClause, whereClause, groupBy, orderBy, comments⟩ := s
  cases whereClause <;> cases groupBy <;> cases orderBy <;>
    simp [mapExprs, exprs, Function.comp_def]

theorem exprs_shape (s : Statement) : s.shape.exprs = s.exprs.map Expr.shape := by
  obtain ⟨select, fromClause, whereClause, groupBy, orderBy, comments⟩ := s
  cases whereClause <;> cases groupBy <;> cases orderBy <;>
    simp [shape, exprs, SelectClause.shape, WhereClause.shape, ByClause.shape, Column.shape,
      Function.comp_def]

theorem mapExprs_congr {f g : Expr → Expr} {s : Statement} (h : ∀ e ∈ s.exprs, f e = g e) :
    s.mapExprs f = s.mapExprs g := by
  obtain ⟨hselect, hwhere, hgroup, horder⟩ := forall_exprs_iff.1 h
  have hby : ∀ c : Option ByClause, (∀ b ∈ c, ∀ e ∈ b.items.toList, f e = g e) →
      (c.map fun b => { b with items := b.items.map f }) =
        c.map fun b => { b with items := b.items.map g } := by
    intro c hc
    refine Option.map_congr fun b hb => ?_
    rw [NonemptyList.map_congr (hc b hb)]
  have hcond : (s.whereClause.map fun w => { w with cond := f w.cond }) =
      s.whereClause.map fun w => { w with cond := g w.cond } := by
    refine Option.map_congr fun w hw => ?_
    rw [hwhere w hw]
  have hcolumns : (s.select.columns.map fun c => { c with expr := f c.expr }) =
      s.select.columns.map fun c => { c with expr := g c.expr } := by
    refine NonemptyList.map_congr fun c hc => ?_
    rw [hselect c hc]
  rw [mapExprs, mapExprs, hcolumns, hcond, hby _ hgroup, hby _ horder]

theorem mapExprs_mapExprs (f g : Expr → Expr) (s : Statement) :
    (s.mapExprs f).mapExprs g = s.mapExprs fun e => g (f e) := by
  simp only [mapExprs, NonemptyList.map, List.map_map, Option.map_map, Function.comp_def]

/-- Positions may be dropped before or after the expressions are changed. -/
theorem shape_mapExprs {f : Expr → Expr} (h : ∀ e, (f e).shape = f e.shape) (s : Statement) :
    (s.mapExprs f).shape = s.shape.mapExprs f := by
  simp only [mapExprs, shape, SelectClause.shape, WhereClause.shape, ByClause.shape, Column.shape,
    NonemptyList.map, List.map_map, Option.map_map, Function.comp_def, h]

end Statement

end SqlFormatter
