import SqlFormatter.Proofs.Expr.Node
import SqlFormatter.Statement.Basic

/-!
# SqlFormatter.Proofs.Expr.Shape

Trees up to positions. The shape of a tree is the tree with all its positions put nowhere; the
shape of a statement also leaves its comments out.
-/

namespace SqlFormatter

/-- The name at no position. -/
def Name.shape (n : Name) : Name := { n with pos := nowhere }

namespace Expr

/-- The expression with the positions of its root put nowhere. -/
def unplaced : Expr → Expr
  | column q n => column (q.map Name.shape) n.shape
  | literal _ k t => literal nowhere k t
  | wildcard _ => wildcard nowhere
  | unary _ op x => unary nowhere op x
  | binary x _ op y => binary x nowhere op y
  | call f _ args _ => call f.shape nowhere args nowhere
  | case _ key first others otherwise _ =>
    case nowhere key { first with pos := nowhere, thenPos := nowhere }
      (others.map fun a => { a with pos := nowhere, thenPos := nowhere })
      (otherwise.map fun o => { o with pos := nowhere }) nowhere
  | isNull x _ _ => isNull x nowhere nowhere
  | paren _ x _ => paren nowhere x nowhere

/-- The expression with all its positions put nowhere. -/
def shape (e : Expr) : Expr := e.rebuild unplaced

end Expr

/-- The arm with all its positions put nowhere. -/
def Arm.shape (a : Arm) : Arm := ⟨nowhere, a.cond.shape, nowhere, a.result.shape⟩

/-- The last part of a choice with all its positions put nowhere. -/
def Otherwise.shape (o : Otherwise) : Otherwise := ⟨nowhere, o.result.shape⟩

namespace Expr

theorem shape_column (q : Option Name) (n : Name) :
    (column q n).shape = column (q.map Name.shape) n.shape := rfl

theorem shape_literal (p : Nat) (k : LiteralKind) (t : String) :
    (literal p k t).shape = literal nowhere k t := rfl

theorem shape_unary (p : Nat) (op : UnaryOp) (x : Expr) :
    (unary p op x).shape = unary nowhere op x.shape := rfl

theorem shape_binary (x y : Expr) (p : Nat) (op : BinaryOp) :
    (binary x p op y).shape = binary x.shape nowhere op y.shape := rfl

theorem shape_call (f : Name) (l r : Nat) (args : List Expr) :
    (call f l args r).shape = call f.shape nowhere (args.map shape) nowhere := by
  rw [shape, rebuild_eq]
  rfl

theorem shape_case (p q : Nat) (key : Option Expr) (first : Arm) (others : List Arm)
    (otherwise : Option Otherwise) :
    (case p key first others otherwise q).shape =
      case nowhere (key.map shape) first.shape (others.map Arm.shape)
        (otherwise.map Otherwise.shape) nowhere := by
  rw [shape, rebuild_eq]
  simp only [mapChildren, unplaced, List.map_map, Option.map_map]
  rfl

theorem shape_isNull (x : Expr) (p q : Nat) :
    (isNull x p q).shape = isNull x.shape nowhere nowhere := rfl

theorem shape_paren (x : Expr) (l r : Nat) :
    (paren l x r).shape = paren nowhere x.shape nowhere := rfl

end Expr

/-! ### Statements -/

/-- The alias with its positions put nowhere. -/
def Alias.shape (a : Alias) : Alias := ⟨nowhere, a.name.shape⟩

/-- The column with its positions put nowhere. -/
def Column.shape (c : Column) : Column := ⟨c.expr.shape, c.asName.map Alias.shape⟩

/-- The table with its positions put nowhere. -/
def Table.shape (t : Table) : Table := ⟨t.name.shape, t.asName.map Alias.shape⟩

/-- The SELECT clause with its positions put nowhere. -/
def SelectClause.shape (c : SelectClause) : SelectClause := ⟨nowhere, c.columns.map Column.shape⟩

/-- The FROM clause with its positions put nowhere. -/
def FromClause.shape (c : FromClause) : FromClause := ⟨nowhere, c.tables.map Table.shape⟩

/-- The WHERE clause with its positions put nowhere. -/
def WhereClause.shape (c : WhereClause) : WhereClause := ⟨nowhere, c.cond.shape⟩

/-- The clause with its positions put nowhere. -/
def ByClause.shape (c : ByClause) : ByClause := ⟨nowhere, nowhere, c.items.map Expr.shape⟩

namespace Statement

/-- The statement without its comments and with all positions put nowhere. -/
def shape (s : Statement) : Statement where
  select := s.select.shape
  fromClause := s.fromClause.shape
  whereClause := s.whereClause.map WhereClause.shape
  groupBy := s.groupBy.map ByClause.shape
  orderBy := s.orderBy.map ByClause.shape
  comments := []

/-- The texts of the comments, in order. -/
def commentTexts (s : Statement) : List String :=
  s.comments.flatMap fun g => g.toList.map Comment.text

/-- The expressions that are not inside another, in order. -/
def exprs (s : Statement) : List Expr :=
  s.select.columns.toList.map Column.expr ++ s.whereClause.toList.map WhereClause.cond ++
    s.groupBy.toList.flatMap (·.items.toList) ++ s.orderBy.toList.flatMap (·.items.toList)

/-- A fact about the expressions of a statement, clause by clause. -/
theorem forall_exprs_iff {s : Statement} {motive : Expr → Prop} :
    (∀ e ∈ s.exprs, motive e) ↔
      (∀ c ∈ s.select.columns.toList, motive c.expr) ∧ (∀ w ∈ s.whereClause, motive w.cond) ∧
        (∀ b ∈ s.groupBy, ∀ e ∈ b.items.toList, motive e) ∧
        (∀ b ∈ s.orderBy, ∀ e ∈ b.items.toList, motive e) := by
  simp only [exprs, List.forall_mem_append, List.forall_mem_map, List.forall_mem_flatMap,
    Option.mem_toList, Option.mem_def, and_assoc]

end Statement

end SqlFormatter
