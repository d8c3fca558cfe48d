import SqlFormatter.Grammar.ParseError
import SqlFormatter.Proofs.Expr.Shape

/-!
# SqlFormatter.Proofs.Statement.Moved

What becomes of tokens, trees and errors when positions are moved: a function `f` is applied to
every position in them, and all else stays as it is.

The shape of a tree is the tree with all its positions moved to one place (`Expr.shape_eq_moved`),
and moving twice is moving once (`Expr.moved_moved`). So trees that differ in their positions alone
have one shape (`Statement.shape_moved`).
-/

namespace SqlFormatter

/-! ### Tokens and errors -/

/-- The token, moved by `f`. -/
def Token.moved (f : Nat → Nat) (t : Token) : Token := { t with pos := f t.pos }

/-- The error, moved by `f`. -/
def LexError.moved (f : Nat → Nat) (e : LexError) : LexError := { e with pos := f e.pos }

/-- The report, moved by `f`. -/
def Report.moved (f : Nat → Nat) : Report → Report
  | illegalCharacter pos c => illegalCharacter (f pos) c
  | fatal error => fatal (error.moved f)

/-- The complaint, moved by `f`. -/
def Complaint.moved (f : Nat → Nat) : Complaint → Complaint
  | unexpected expected => unexpected expected
  | unsupported construct pos => unsupported construct (f pos)

/-- The refusal, moved by `f`. -/
def Refusal.moved (f : Nat → Nat) (r : Refusal) : Refusal :=
  ⟨r.complaint.moved f, r.rest.map (Token.moved f)⟩

/-- The error, moved by `f`. -/
def ParseError.moved (f : Nat → Nat) : ParseError → ParseError
  | lexical error => lexical (error.moved f)
  | unexpected expected found => unexpected expected (found.moved f)
  | unsupported construct pos => unsupported construct (f pos)

theorem ParseError.moved_moved (f g : Nat → Nat) (e : ParseError) :
    (e.moved f).moved g = e.moved fun p => g (f p) := by
  cases e <;> rfl

theorem Report.moved_moved (f g : Nat → Nat) (r : Report) :
    (r.moved f).moved g = r.moved fun p => g (f p) := by
  cases r <;> rfl

theorem ParseError.pos_moved (f : Nat → Nat) (e : ParseError) : (e.moved f).pos = f e.pos := by
  cases e <;> rfl

theorem Refusal.error_moved (f : Nat → Nat) (r : Refusal) (closing : Except LexError Token) :
    (r.moved f).error ((closing.map (Token.moved f)).mapError (LexError.moved f)) =
      (r.error closing).moved f := by
  obtain ⟨c, rest⟩ := r
  cases rest <;> cases closing <;> cases c <;> rfl

/-! ### Expressions -/

/-- The name, moved by `f`. -/
def Name.moved (f : Nat → Nat) (n : Name) : Name := { n with pos := f n.pos }

namespace Expr

/-- The expression with the positions of its root moved by `f`. -/
def movedRoot (f : Nat → Nat) : Expr → Expr
  | column q n => column (q.map (Name.moved f)) (n.moved f)
  | literal p k t => literal (f p) k t
  | wildcard p => wildcard (f p)
  | unary p op x => unary (f p) op x
  | binary x p op y => binary x (f p) op y
  | call g l args r => call (g.moved f) (f l) args (f r)
  | case p key first others otherwise q =>
    case (f p) key { first with pos := f first.pos, thenPos := f first.thenPos }
      (others.map fun a => { a with pos := f a.pos, thenPos := f a.thenPos })
      (otherwise.map fun o => { o with pos := f o.pos }) (f q)
  | isNull x p q => isNull x (f p) (f q)
  | paren l x r => paren (f l) x (f r)

/-- The expression, moved by `f`. -/
def moved (f : Nat → Nat) (e : Expr) : Expr := e.rebuild (movedRoot f)

theorem moved_eq (f : Nat → Nat) (e : Expr) :
    e.moved f = (e.mapChildren (moved f)).movedRoot f := rebuild_eq (movedRoot f) e

theorem mapChildren_movedRoot (f : Nat → Nat) (h : Expr → Expr) (e : Expr) :
    (e.movedRoot f).mapChildren h = (e.mapChildren h).movedRoot f := by
  cases e with
  | column | literal | wildcard | unary | binary | call | isNull | paren => rfl
  | case p key first others otherwise q =>
    simp only [movedRoot, mapChildren, List.map_map, Option.map_map]
    rfl

theorem movedRoot_movedRoot (f g : Nat → Nat) (e : Expr) :
    (e.movedRoot f).movedRoot g = e.movedRoot fun p => g (f p) := by
  cases e with
  | column q n => cases q <;> rfl
  | literal | wildcard | unary | binary | call | isNull | paren => rfl
  | case p key first others otherwise q =>
    simp only [movedRoot, List.map_map, Option.map_map]
    rfl

theorem moved_moved (f g : Nat → Nat) (e : Expr) :
    (e.moved f).moved g = e.moved fun p => g (f p) := by
  induction e using childInduction with
  | step e ih =>
    rw [moved_eq f, moved_eq g, mapChildren_movedRoot, mapChildren_mapChildren,
      movedRoot_movedRoot, mapChildren_congr ih, ← moved_eq]

/-- The shape is what is left when all positions are moved to one place. -/
theorem shape_eq_moved (e : Expr) : e.shape = e.moved fun _ => nowhere := by
  have hroot : unplaced = movedRoot fun _ => nowhere := funext fun e => by cases e <;> rfl
  rw [shape, hroot, moved]

theorem shape_moved (f : Nat → Nat) (e : Expr) : (e.moved f).shape = e.shape := by
  rw [shape_eq_moved, shape_eq_moved, moved_moved]

end Expr

/-- The arm, moved by `f`. -/
def Arm.moved (f : Nat → Nat) (a : Arm) : Arm :=
  ⟨f a.pos, a.cond.moved f, f a.thenPos, a.result.moved f⟩

/-- The last part of a choice, moved by `f`. -/
def Otherwise.moved (f : Nat → Nat) (o : Otherwise) : Otherwise := ⟨f o.pos, o.result.moved f⟩

namespace Expr

theorem moved_call (f : Nat → Nat) (g : Name) (l r : Nat) (args : List Expr) :
    (call g l args r).moved f = call (g.moved f) (f l) (args.map (moved f)) (f r) := by
  rw [moved_eq]
  rfl

theorem moved_case (f : Nat → Nat) (p q : Nat) (key : Option Expr) (first : Arm)
    (others : List Arm) (otherwise : Option Otherwise) :
    (case p key first others otherwise q).moved f =
      case (f p) (key.map (moved f)) (first.moved f) (others.map (Arm.moved f))
        (otherwise.map (Otherwise.moved f)) (f q) := by
  rw [moved_eq]
  simp only [mapChildren, movedRoot, List.map_map, Option.map_map]
  rfl

end Expr

/-! ### Statements -/

/-- The alias, moved by `f`. -/
def Alias.moved (f : Nat → Nat) (a : Alias) : Alias := ⟨f a.asPos, a.name.moved f⟩

/-- The column, moved by `f`. -/
def Column.moved (f : Nat → Nat) (c : Column) : Column :=
  ⟨c.expr.moved f, c.asName.map (Alias.moved f)⟩

/-- The table, moved by `f`. -/
def Table.moved (f : Nat → Nat) (t : Table) : Table :=
  ⟨t.name.moved f, t.asName.map (Alias.moved f)⟩

/-- The SELECT clause, moved by `f`. -/
def SelectClause.moved (f : Nat → Nat) (c : SelectClause) : SelectClause :=
  ⟨f c.pos, c.columns.map (Column.moved f)⟩

/-- The FROM clause, moved by `f`. -/
def FromClause.moved (f : Nat → Nat) (c : FromClause) : FromClause :=
  ⟨f c.pos, c.tables.map (Table.moved f)⟩

/-- The WHERE clause, moved by `f`. -/
def WhereClause.moved (f : Nat → Nat) (c : WhereClause) : WhereClause :=
  ⟨f c.pos, c.cond.moved f⟩

/-- The clause, moved by `f`. -/
def ByClause.moved (f : Nat → Nat) (c : ByClause) : ByClause :=
  ⟨f c.pos, f c.byPos, c.items.map (Expr.moved f)⟩

/-- The comment, moved by `f`. -/
def Comment.moved (f : Nat → Nat) (c : Comment) : Comment := { c with pos := f c.pos }

/-- The comment group, moved by `f`. -/
def CommentGroup.moved (f : Nat → Nat) (g : CommentGroup) : CommentGroup :=
  ⟨g.comments.map (Comment.moved f)⟩

namespace Statement

/-- The statement, moved by `f`. -/
def moved (f : Nat → Nat) (s : Statement) : Statement where
  select := s.select.moved f
  fromClause := s.fromClause.moved f
  whereClause := s.whereClause.map (WhereClause.moved f)
  groupBy := s.groupBy.map (ByClause.moved f)
  orderBy := s.orderBy.map (ByClause.moved f)
  comments := s.comments.map (CommentGroup.moved f)

theorem shape_moved (f : Nat → Nat) (s : Statement) : (s.moved f).shape = s.shape := by
  have halias : ∀ a : Option Alias,
      (a.map (Alias.moved f)).map Alias.shape = a.map Alias.shape := by
    intro a
    rw [Option.map_map]
    rfl
  have hcolumn : ∀ c : Column, (c.moved f).shape = c.shape := fun c => by
    simp only [Column.shape, Column.moved, Expr.shape_moved, halias]
  have htable : ∀ t : Table, (t.moved f).shape = t.shape := fun t => by
    simp only [Table.shape, Table.moved, halias]
    rfl
  simp only [shape, moved, SelectClause.shape, SelectClause.moved, FromClause.shape,
    FromClause.moved, WhereClause.shape, WhereClause.moved, ByClause.shape, ByClause.moved,
    NonemptyList.map, List.map_map, Option.map_map, Function.comp_def, hcolumn, htable,
    Expr.shape_moved]
  rfl

theorem moved_moved (f g : Nat → Nat) (s : Statement) :
    (s.moved f).moved g = s.moved fun p => g (f p) := by
  have halias : ∀ a : Option Alias,
      (a.map (Alias.moved f)).map (Alias.moved g) = a.map (Alias.moved fun p => g (f p)) := by
    intro a
    rw [Option.map_map]
    rfl
  have hcolumn : ∀ c : Column, (c.moved f).moved g = c.moved fun p => g (f p) := fun c => by
    simp only [Column.moved, Expr.moved_moved, halias]
  have htable : ∀ t : Table, (t.moved f).moved g = t.moved fun p => g (f p) := fun t => by
    simp only [Table.moved, halias]
    rfl
  have hgroup : ∀ c : CommentGroup, (c.moved f).moved g = c.moved fun p => g (f p) := fun c => by
    simp only [CommentGroup.moved, NonemptyList.map, List.map_map]
    rfl
  simp only [moved, SelectClause.moved, FromClause.moved, WhereClause.moved, ByClause.moved,
    NonemptyList.map, List.map_map, Option.map_map, Function.comp_def, hcolumn, htable, hgroup,
    Expr.moved_moved]
  rfl

theorem commentTexts_moved (f : Nat → Nat) (s : Statement) :
    (s.moved f).commentTexts = s.commentTexts := by
  have hgroup : ∀ g : CommentGroup,
      (g.moved f).toList.map Comment.text = g.toList.map Comment.text := fun g => by
    rw [CommentGroup.moved, CommentGroup.toList, NonemptyList.toList_map, List.map_map]
    rfl
  simp only [commentTexts, moved, List.flatMap_map, hgroup]

end Statement

end SqlFormatter
