import SqlFormatter.Proofs.Layout.RoundTrip

/-!
# SqlFormatter.Proofs.Layout.Confluence

A layout shows the normal form of a statement and nothing else.

* `Expr.Unseen f`: the function `f` changes the root of an expression in a way that no layout shows.
  Then no layout shows it either when `f` is applied everywhere (`Expr.Unseen.text_rebuild`,
  `Expr.Unseen.conditionLines_rebuild`).
* `Statement.layout_eq_normalForm`: dropping positions, merging signs and forgetting the groups of
  comments are such changes, so statements of one normal form have the same layouts.
* `parseText_layout_layout` is the main result.
-/

namespace SqlFormatter

namespace Expr

/-! ### Changes that no layout shows -/

/-- No layout shows that `f` was applied to the root of an expression. -/
structure Unseen (f : Expr → Expr) : Prop where
  /-- The text is the same. -/
  text_eq (style : Style) (e : Expr) : (f e).text style = e.text style
  /-- As an operand the expression needs the same parentheses. -/
  binaryOp?_eq (e : Expr) : (f e).binaryOp? = e.binaryOp?
  /-- A chain of operators keeps its operands. -/
  binary_eq (x : Expr) (p : Nat) (op : BinaryOp) (y : Expr) :
    ∃ q, f (binary x p op y) = binary x q op y

/-- A text does not change with the children, if theirs do not. -/
theorem text_mapChildren {style : Style} {g : Expr → Expr} {e : Expr}
    (htext : ∀ c ∈ e.children, (g c).text style = c.text style)
    (hop : ∀ c, (g c).binaryOp? = c.binaryOp?) : (e.mapChildren g).text style = e.text style := by
  cases e with
  | column | literal | wildcard => rfl
  | unary p op x =>
    have hx := htext x (by simp [children])
    simp only [mapChildren, text, isBinary, hop, hx]
  | binary x p op y =>
    have hx := htext x (by simp [children])
    have hy := htext y (by simp [children])
    simp only [mapChildren, text, isLooserThan, isNotTighterThan, hop, hx, hy]
  | call f l args r =>
    have hargs : (args.map g).map (text style) = args.map (text style) := by
      rw [List.map_map]
      exact List.map_congr_left htext
    rw [mapChildren, text_call, text_call, hargs]
  | case p key first others otherwise q =>
    obtain ⟨hkey, harms, hlast⟩ := forall_children_case.1 htext
    have harms : ((first :: others).map (Arm.map g)).map (textOfArm style) =
        (first :: others).map (textOfArm style) := by
      rw [List.map_map]
      refine List.map_congr_left fun a ha => ?_
      obtain ⟨hcond, hresult⟩ := harms a ha
      obtain ⟨p, cond, q, result⟩ := a
      show textOfArm style ⟨p, g cond, q, g result⟩ = _
      rw [textOfArm, textOfArm, hcond, hresult]
    rw [mapChildren, text_case, text_case, ← List.map_cons, harms]
    cases key <;> cases otherwise <;> simp_all [Otherwise.map]
  | isNull x p q =>
    have hx := htext x (by simp [children])
    simp only [mapChildren, text, isBinary, hop, hx]
  | paren l x r =>
    have hx := htext x (by simp [children])
    simp only [mapChildren, text, hx]

namespace Unseen

variable {f : Expr → Expr}

theorem binaryOp?_rebuild (h : Unseen f) (e : Expr) : (e.rebuild f).binaryOp? = e.binaryOp? := by
  rw [rebuild_eq, h.binaryOp?_eq, binaryOp?_mapChildren]

theorem text_rebuild (h : Unseen f) (style : Style) (e : Expr) :
    (e.rebuild f).text style = e.text style := by
  induction e using childInduction with
  | step e ih => rw [rebuild_eq, h.text_eq, text_mapChildren ih h.binaryOp?_rebuild]

theorem leftOperand_rebuild (h : Unseen f) (style : Style) (op : BinaryOp) (e : Expr) :
    (e.rebuild f).leftOperand style op = e.leftOperand style op := by
  rw [leftOperand, leftOperand, isLooserThan, isLooserThan, h.binaryOp?_rebuild, h.text_rebuild]

theorem rightOperand_rebuild (h : Unseen f) (style : Style) (op : BinaryOp) (e : Expr) :
    (e.rebuild f).rightOperand style op = e.rightOperand style op := by
  rw [rightOperand, rightOperand, isNotTighterThan, isNotTighterThan, h.binaryOp?_rebuild,
    h.text_rebuild]

theorem chain_rebuild (h : Unseen f) (op : BinaryOp) (e : Expr) :
    (e.rebuild f).chain op = (e.chain op).map (rebuild f) := by
  fun_induction chain op e with
  | case1 x p y operands ih =>
    obtain ⟨q, hq⟩ := h.binary_eq (x.rebuild f) p op (y.rebuild f)
    rw [rebuild, hq, chain, if_pos rfl, ih]
    simp only [NonemptyList.map, List.map_append, List.map_cons, List.map_nil, operands]
  | case2 x p o y ho =>
    refine chain_of_binaryOp?_ne ?_
    rw [h.binaryOp?_rebuild]
    exact fun heq => ho (Option.some.inj heq)
  | case3 e hbinary =>
    refine chain_of_binaryOp?_ne ?_
    rw [h.binaryOp?_rebuild]
    cases e with
    | binary x p o y => exact absurd rfl (hbinary x p o y)
    | _ => rintro ⟨⟩

theorem conditionLines_rebuild (h : Unseen f) (style : Style) (e : Expr) :
    (e.rebuild f).conditionLines style = e.conditionLines style := by
  unfold conditionLines
  rw [h.binaryOp?_rebuild]
  cases e.binaryOp?.filter BinaryOp.isLogical with
  | none => exact congrArg (NonemptyList.mk · []) (h.text_rebuild style e)
  | some op =>
    simp only [h.chain_rebuild, NonemptyList.map, List.map_map, Function.comp_def,
      h.leftOperand_rebuild, h.rightOperand_rebuild]

end Unseen

/-- No layout shows positions. -/
theorem unseen_unplaced : Unseen unplaced where
  text_eq style e := by
    cases e with
    | column q n => cases q <;> rfl
    | literal | wildcard | unary | binary | isNull | paren => rfl
    | call f l args r =>
      rw [unplaced, text_call, text_call]
      rfl
    | case p key first others otherwise q =>
      have harm : ∀ a : Arm, textOfArm style { a with pos := nowhere, thenPos := nowhere } =
        textOfArm style a := fun a => by cases a; rfl
      rw [unplaced, text_case, text_case]
      cases otherwise <;> simp only [List.map_cons, List.map_map, Function.comp_def, harm,
        Option.map_none, Option.map_some, Option.elim_none, Option.elim_some]
  binaryOp?_eq e := by cases e <;> rfl
  binary_eq x p op y := ⟨nowhere, rfl⟩

/-- No layout shows whether a minus is the sign of a number. -/
theorem unseen_mergeSign : Unseen mergeSign where
  text_eq style e := by
    rcases e.mergeSign_cases with h | ⟨p, x, k, text, rfl, hx, h⟩
    · rw [h]
    · obtain ⟨q, rfl, -⟩ := unsigned?_eq_some hx
      rw [h]
      rfl
  binaryOp?_eq := binaryOp?_mergeSign
  binary_eq x p op y := ⟨p, rfl⟩

end Expr

/-! ### Statements -/

section Statement

variable {style : Style}

theorem Style.aliased_shape (text : String) (asName : Option Alias) :
    style.aliased text (asName.map Alias.shape) = style.aliased text asName := by
  cases asName <;> rfl

theorem Column.text_shape (c : Column) : c.shape.text style = c.text style := by
  rw [text, text, shape, Style.aliased_shape]
  exact congrArg (style.aliased · c.asName) (Expr.unseen_unplaced.text_rebuild style c.expr)

theorem Table.text_shape (t : Table) : t.shape.text style = t.text style := by
  rw [text, text, shape, Style.aliased_shape]
  rfl

theorem SelectClause.layout_shape (c : SelectClause) : c.shape.layout style = c.layout style := by
  simp only [layout, shape, NonemptyList.map, List.map_map, Function.comp_def, Column.text_shape]

theorem FromClause.layout_shape (c : FromClause) : c.shape.layout style = c.layout style := by
  simp only [layout, shape, NonemptyList.map, List.map_map, Function.comp_def, Table.text_shape]

theorem WhereClause.layout_shape (c : WhereClause) : c.shape.layout style = c.layout style :=
  congrArg (style.block (style.keyword .WHERE) "")
    (Expr.unseen_unplaced.conditionLines_rebuild style c.cond)

theorem ByClause.layout_shape (k : Keyword) (c : ByClause) :
    c.shape.layout style k = c.layout style k := by
  have htext : ∀ e : Expr, e.shape.text style = e.text style :=
    Expr.unseen_unplaced.text_rebuild style
  simp only [layout, shape, NonemptyList.map, List.map_map, Function.comp_def, htext]

theorem layout_comments (groups : List CommentGroup) :
    String.join (groups.map (CommentGroup.layout style)) =
      String.join
        ((groups.flatMap fun g => g.toList.map Comment.text).map (· ++ style.newline)) := by
  induction groups with
  | nil => rfl
  | cons g gs ih =>
    rw [List.map_cons, String.join_cons, ih, List.flatMap_cons, List.map_append, String.join_append,
      List.map_map]
    rfl

namespace Statement

/-- A layout shows the texts of the comments, and no positions of anything else. -/
theorem layout_shape (s : Statement) :
    s.layout style = String.join (s.commentTexts.map (· ++ style.newline)) ++
      s.shape.layout style := by
  simp only [layout, shape, layout_comments, commentTexts, SelectClause.layout_shape,
    FromClause.layout_shape, Option.map_map, Function.comp_def, WhereClause.layout_shape,
    ByClause.layout_shape, List.map_nil, String.join_nil, String.empty_append,
    String.append_assoc]

/-- A layout shows nothing of the expressions but their texts and the lines of the condition. -/
theorem layout_mapExprs {f : Expr → Expr} (htext : ∀ e, (f e).text style = e.text style)
    (hlines : ∀ e, (f e).conditionLines style = e.conditionLines style) (s : Statement) :
    (s.mapExprs f).layout style = s.layout style := by
  simp only [mapExprs, layout, SelectClause.layout, FromClause.layout, Option.map_map,
    Function.comp_def, WhereClause.layout, ByClause.layout, NonemptyList.map, List.map_map,
    Column.text, htext, hlines]
  rfl

/-- The layout of a statement, in terms of its normal form: the comments, each on a line of its
own, and then the clauses. -/
theorem layout_eq_normalForm (s : Statement) :
    s.layout style = String.join (s.normalForm.2.map (· ++ style.newline)) ++
      s.normalForm.1.layout style := by
  have hmerge : (s.shape.mapExprs Expr.mergeSigns).layout style = s.shape.layout style :=
    layout_mapExprs (Expr.unseen_mergeSign.text_rebuild style)
      (Expr.unseen_mergeSign.conditionLines_rebuild style) s.shape
  rw [normalForm, hmerge]
  exact s.layout_shape

end Statement

end Statement

/-- Layouts are confluent: a statement laid out, read and laid out again in another style is the
same text as the statement laid out in that style at once. In one style, the layout of a layout is
that layout. -/
theorem parseText_layout_layout {file file' : File} {text : String} {expired : Bool} {s : Statement}
    (h : parseText file text expired = .ok (.ok s, file')) {style : Style}
    (hnewline : style.newline = "\n") {target : File}
    (hsize : target.size = byteLength (s.layout style).toList) :
    ∃ s' target', parseText target (s.layout style) = .ok (.ok s', target') ∧
      ∀ other : Style, s'.layout other = s.layout other := by
  obtain ⟨hcanonical, -⟩ := canonical_of_parseText h
  obtain ⟨s', target', htarget, hshape, htexts⟩ := written_of_parseText_layout h hnewline hsize
  have hnormal := Statement.normalForm_of_written hcanonical hshape htexts
  refine ⟨s', target', htarget, fun other => ?_⟩
  rw [s'.layout_eq_normalForm, hnormal, ← s.layout_eq_normalForm]

/-- A number with a blank behind its sign, laid out in capitals, read, and laid out in any other
style. -/
theorem parseText_layout_layout_negated_number :
    ∃ s file' s' target',
      parseText ⟨0, "q.sql", 1, 18, []⟩ "SELECT - 1 FROM t;" = .ok (.ok s, file') ∧
      parseText ⟨0, "q.sql", 1, byteLength (s.layout {}).toList, []⟩ (s.layout {}) =
        .ok (.ok s', target') ∧
      ∀ other : Style, s'.layout other = s.layout other := by
  obtain ⟨s, file', hfile, -⟩ := parseText_negated_number
  have hnewline : ({} : Style).newline = "\n" := rfl
  have hsize : ∀ n, (File.mk 0 "q.sql" 1 n []).size = n := fun _ => rfl
  obtain ⟨s', target', htarget, hlayout⟩ := parseText_layout_layout hfile hnewline (hsize _)
  exact ⟨s, file', s', target', hfile, htarget, hlayout⟩

end SqlFormatter
