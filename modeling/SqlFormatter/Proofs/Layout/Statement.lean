import SqlFormatter.Layout.Statement
import SqlFormatter.Proofs.Layout.Chain
import SqlFormatter.Proofs.Layout.Expression
import SqlFormatter.Proofs.Statement.Normal

/-!
# SqlFormatter.Proofs.Layout.Statement

The layout of a statement is read as its comments and then the words of `Statement.written`, perhaps
with a semicolon (`Statement.scans_layout`), if its names, literals and comments are tokens by
themselves, no prefix operator has a test for null as its operand, and a newline ends a line. Before
the newline a gap may stand, such as a carriage return (`Style.EndsLines`). A comment without an end
marker takes it in (`Comment.textBefore`).
-/

namespace SqlFormatter

/-! ### Conditions over several lines -/

section Condition

variable {style : Style} {gap : String}

/-- The lines of a chain are read as the chain, wherever its lines begin. -/
theorem prints_chain (style : Style) (hgap : ∀ c ∈ gap.toList, isGap c)
    (hfront : Delimited gap.toList) (op : BinaryOp) {e : Expr} (hlegible : e.Legible)
    (hnull : e.NullTestsUnsigned) :
    Prints
      ((e.chain op).first.leftOperand style op ++ String.join ((e.chain op).others.map fun y =>
        gap ++ style.operator op ++ " " ++ y.rightOperand style op))
      (e.written.inParensIf (e.isLooserThan op)).yield := by
  -- What is no chain is one operand, which stands on one line.
  have hsingle : ∀ {e : Expr}, e.Legible → e.NullTestsUnsigned →
      Prints (e.leftOperand style op ++ String.join [])
        (e.written.inParensIf (e.isLooserThan op)).yield := by
    intro e hlegible hnull
    rw [String.join_nil, String.append_empty]
    exact Expr.prints_parenthesizedIf (Expr.prints_text style hlegible hnull) _
  fun_induction Expr.chain op e with
  | case1 x p y operands ih =>
    -- The left side is the chain so far, and the right side is on a line of its own.
    obtain ⟨-, hchildren⟩ := Expr.nullTestsUnsigned_iff.1 hnull
    have hx := ih (hlegible.child (by simp [Expr.children])) (hchildren x (by simp [Expr.children]))
    have hy := Expr.prints_parenthesizedIf (Expr.prints_text style
      (hlegible.child (c := y) (by simp [Expr.children])) (hchildren y (by simp [Expr.children])))
      (y.isNotTighterThan op)
    have hprints := hx.append (hy.after_operator style op hgap hfront)
    have hnot : (Expr.binary x p op y).isLooserThan op = false := by
      simp [Expr.isLooserThan, Expr.binaryOp?]
    have hwords : ((Expr.binary x p op y).written.inParensIf false).yield =
        (x.written.inParensIf (x.isLooserThan op)).yield ++
          .fixed op.kind :: (y.written.inParensIf (y.isNotTighterThan op)).yield := by
      rw [Expr.written_binary]
      exact List.map_append
    rw [hnot, hwords]
    simp only [List.map_append, List.map_cons, List.map_nil, String.join_append, String.join_cons,
      String.join_nil, String.append_empty, String.append_assoc] at hprints ⊢
    exact hprints
  | case2 => exact hsingle hlegible hnull
  | case3 => exact hsingle hlegible hnull

theorem prints_conditionLines (hgap : ∀ c ∈ gap.toList, isGap c) (hfront : Delimited gap.toList)
    {e : Expr} (hlegible : e.Legible) (hnull : e.NullTestsUnsigned) :
    Prints (gap.intercalate (e.conditionLines style).toList) e.written.yield := by
  unfold Expr.conditionLines
  cases hop : e.binaryOp?.filter BinaryOp.isLogical with
  | none =>
    show Prints (gap.intercalate [e.text style]) e.written.yield
    rw [String.intercalate_singleton]
    exact Expr.prints_text style hlegible hnull
  | some op =>
    have hchain := prints_chain style hgap hfront op hlegible hnull
    have hnot : e.isLooserThan op = false := by
      have hop := (Option.filter_eq_some_iff.1 hop).1
      simp [Expr.isLooserThan, hop]
    have hlines := intercalate_eq_join gap id ((e.chain op).first.leftOperand style op)
      ((e.chain op).others.map fun y => style.operator op ++ " " ++ y.rightOperand style op)
    rw [List.map_id, List.map_map] at hlines
    show Prints (gap.intercalate (_ :: _)) _
    rw [hlines]
    rw [hnot] at hchain
    simp only [Function.comp_def, id, String.append_assoc] at hchain ⊢
    exact hchain

end Condition

/-! ### Lines -/

/-- A newline ends a line, and before it may stand the gap, such as a carriage return. -/
structure Style.EndsLines (style : Style) (gap : List Char) : Prop where
  /-- The newline is the end of what ends a line. -/
  toList_newline : style.newline.toList = gap ++ ['\n']
  /-- What is before it stands between tokens, but starts no other line. -/
  isGap_gap : ∀ c ∈ gap, isGap c ∧ c ≠ '\n'

/-- The text is read as the words, whatever stands around it. That is so of whole lines. -/
def Lines (text : String) (ws : List Word) : Prop :=
  ∀ k rest, ∃ k', Scans k (text.toList ++ rest) ws k' rest

/-- The comment as it is read from a line that ends with the gap and a newline: a comment without an
end marker takes the gap in. -/
def Comment.textBefore (gap : List Char) (c : Comment) : String :=
  if c.isBlock then c.text else c.text ++ String.ofList gap

section Lines

variable {style : Style} {text text' : String} {ws vs : List Word}

theorem Lines.nil : Lines "" [] := fun k rest => ⟨k, .done k rest⟩

theorem Lines.append (h : Lines text ws) (h' : Lines text' vs) :
    Lines (text ++ text') (ws ++ vs) := by
  intro k rest
  obtain ⟨k', hfirst⟩ := h k (text'.toList ++ rest)
  obtain ⟨k'', hsecond⟩ := h' k' rest
  rw [String.toList_append, List.append_assoc]
  exact ⟨k'', hfirst.trans hsecond⟩

theorem lines_join {α : Type} {text : α → String} {words : α → List Word} {xs : List α}
    (h : ∀ x ∈ xs, Lines (text x) (words x)) :
    Lines (String.join (xs.map text)) (xs.flatMap words) := by
  induction xs with
  | nil => exact Lines.nil
  | cons x xs ih =>
    rw [List.forall_mem_cons] at h
    rw [List.map_cons, String.join_cons, List.flatMap_cons]
    exact h.1.append (ih h.2)

theorem lines_optional {α : Type} {text : α → String} {words : α → List Word} {x : Option α}
    (h : ∀ y ∈ x, Lines (text y) (words y)) : Lines ((x.map text).getD "") (x.elim [] words) := by
  cases x with
  | none => exact Lines.nil
  | some y => exact h y rfl

/-- The text is read as the words if no word goes on behind it, and an operand may follow. -/
def Opens (text : String) (ws : List Word) : Prop :=
  ∃ k', k'.endsOperand = false ∧
    ∀ k rest, EndsWord rest → Scans k (text.toList ++ rest) ws k' rest

theorem opens_keyword (style : Style) {kw : Keyword} (hkw : (Kind.keyword kw).endsOperand = false) :
    Opens (style.keyword kw) [.fixed (.keyword kw)] :=
  ⟨.keyword kw, hkw, fun _ _ hrest => scans_keyword style kw hrest⟩

theorem opens_by (style : Style) (kw : Keyword) :
    Opens (style.keyword kw ++ " " ++ style.keyword .BY)
      [.fixed (.keyword kw), .fixed (.keyword .BY)] := by
  refine ⟨.keyword .BY, rfl, fun k rest hrest => ?_⟩
  simp only [String.toList_append, List.append_assoc]
  exact (scans_keyword style kw (endsWord_blank _)).trans
    (.gap (c := ' ') rfl (scans_keyword style .BY hrest))

namespace Style.EndsLines

variable {gap : List Char}

theorem of_newline (h : style.newline = "\n") : style.EndsLines [] :=
  ⟨congrArg String.toList h, nofun⟩

theorem isGap_newline (h : style.EndsLines gap) : ∀ c ∈ style.newline.toList, isGap c := by
  rw [h.toList_newline, List.forall_mem_append, List.forall_mem_singleton]
  exact ⟨fun c hc => (h.isGap_gap c hc).1, rfl⟩

theorem delimited_newline (h : style.EndsLines gap) : Delimited style.newline.toList := by
  rw [h.toList_newline]
  cases gap with
  | nil => exact delimited_cons (by decide) []
  | cons c cs =>
    refine delimited_cons ?_ _
    have hc := (h.isGap_gap c List.mem_cons_self).1
    simp only [isGap, Bool.or_eq_true, beq_iff_eq] at hc
    rcases hc with ((rfl | rfl) | rfl) | rfl <;> decide

theorem toList_indentedLine (style : Style) :
    style.indentedLine.toList = style.newline.toList ++ List.replicate style.indentWidth ' ' := by
  rw [Style.indentedLine, String.toList_append, String.toList_ofList]

theorem isGap_indentedLine (h : style.EndsLines gap) :
    ∀ c ∈ style.indentedLine.toList, isGap c := by
  rw [toList_indentedLine, List.forall_mem_append]
  refine ⟨h.isGap_newline, fun c hc => ?_⟩
  rw [List.eq_of_mem_replicate hc]
  rfl

theorem delimited_indentedLine (h : style.EndsLines gap) : Delimited style.indentedLine.toList := by
  rw [toList_indentedLine]
  exact h.delimited_newline.append _

end Style.EndsLines

/-- A block is read as its first words and its items. -/
theorem lines_block {gap : List Char} (hlines : style.EndsLines gap) {words separator : String}
    {items : NonemptyList String} (hopens : Opens words vs)
    (hitems : Prints ((separator ++ style.indentedLine).intercalate items.toList) ws) :
    Lines (style.block words separator items) (vs ++ ws) := by
  obtain ⟨k', hk', hopens⟩ := hopens
  intro k rest
  obtain ⟨k'', hitems⟩ := hitems hk' (hlines.delimited_newline.append rest)
  refine ⟨k'', ?_⟩
  have hfront := (hlines.delimited_indentedLine.append
    (((separator ++ style.indentedLine).intercalate items.toList).toList ++
      (style.newline.toList ++ rest))).endsWord
  have hscans := (hopens k _ hfront).trans ((scans_gap hlines.isGap_indentedLine _).trans
    (hitems.trans (scans_gap hlines.isGap_newline rest)))
  simp only [Style.block, String.toList_append, List.append_assoc, List.append_nil] at hscans ⊢
  exact hscans

end Lines

/-! ### Clauses -/

section Clauses

variable {style : Style} {gap : List Char}

theorem prints_name {n : Name} (h : (Leaf.ofName n).Legible) : Prints n.text [⟨.ident, n.text⟩] :=
  fun _ _ _ hrest => ⟨_, scans_name (h rfl) hrest.endsWord⟩

theorem prints_aliased {text : String} {ws : List Word} {asName : Option Alias}
    (h : Prints text ws) (hname : ∀ l ∈ asName.elim [] Alias.leaves, l.Legible) :
    Prints (style.aliased text asName) (ws ++ (asName.elim [] Alias.leaves).map Leaf.word) := by
  cases asName with
  | none =>
    show Prints text (ws ++ [])
    rw [List.append_nil]
    exact h
  | some a =>
    have halias : Prints a.name.text [⟨.ident, a.name.text⟩] :=
      prints_name (hname _ (by simp [Alias.leaves]))
    have hprints := h.append (halias.after_keyword style .AS rfl)
    simp only [Style.aliased, String.append_assoc] at hprints ⊢
    exact hprints

/-- The items of a clause, one to a line. -/
theorem prints_items {α : Type} (hlines : style.EndsLines gap) {items : NonemptyList α}
    {text : α → String} {leaves : α → List Leaf}
    (h : ∀ x ∈ items.toList, Prints (text x) ((leaves x).map Leaf.word)) :
    Prints (("," ++ style.indentedLine).intercalate (items.map text).toList)
      ((Leaf.list leaves items.toList).map Leaf.word) := by
  obtain ⟨x, xs⟩ := items
  exact prints_list hlines.isGap_indentedLine h

theorem lines_selectClause (hlines : style.EndsLines gap) {c : SelectClause}
    (hlegible : ∀ x ∈ c.columns.toList, ∀ l ∈ x.leaves, l.Legible)
    (hnull : ∀ x ∈ c.columns.toList, x.expr.NullTestsUnsigned) :
    Lines (c.layout style) ([.fixed (.keyword .SELECT)] ++
      (Leaf.list (fun x => x.expr.written.leaves ++ x.asName.elim [] Alias.leaves)
        c.columns.toList).map Leaf.word) := by
  refine lines_block hlines (opens_keyword style rfl) (prints_items hlines fun x hx => ?_)
  have hlegible := hlegible x hx
  rw [Column.leaves, List.forall_mem_append] at hlegible
  rw [List.map_append]
  exact prints_aliased (Expr.prints_text style hlegible.1 (hnull x hx)) hlegible.2

theorem lines_fromClause (hlines : style.EndsLines gap) {c : FromClause}
    (hlegible : ∀ x ∈ c.tables.toList, ∀ l ∈ x.leaves, l.Legible) :
    Lines (c.layout style) ([.fixed (.keyword .FROM)] ++
      (Leaf.list Table.leaves c.tables.toList).map Leaf.word) := by
  refine lines_block hlines (opens_keyword style rfl) (prints_items hlines fun x hx => ?_)
  have hlegible := hlegible x hx
  rw [Table.leaves, List.forall_mem_cons] at hlegible
  exact prints_aliased (prints_name hlegible.1) hlegible.2

theorem lines_whereClause (hlines : style.EndsLines gap) {c : WhereClause}
    (hlegible : c.cond.Legible) (hnull : c.cond.NullTestsUnsigned) :
    Lines (c.layout style) ([.fixed (.keyword .WHERE)] ++ c.cond.written.yield) := by
  refine lines_block hlines (opens_keyword style rfl) ?_
  rw [String.empty_append]
  exact prints_conditionLines hlines.isGap_indentedLine hlines.delimited_indentedLine
    hlegible hnull

theorem lines_byClause (hlines : style.EndsLines gap) (k : Keyword) {c : ByClause}
    (hlegible : ∀ x ∈ c.items.toList, x.Legible)
    (hnull : ∀ x ∈ c.items.toList, x.NullTestsUnsigned) :
    Lines (c.layout style k) ([.fixed (.keyword k), .fixed (.keyword .BY)] ++
      (Leaf.list (fun x => x.written.leaves) c.items.toList).map Leaf.word) :=
  lines_block hlines (opens_by style k) (prints_items hlines fun x hx =>
    Expr.prints_text style (hlegible x hx) (hnull x hx))

theorem lines_comment (hlines : style.EndsLines gap) {c : Comment}
    (h : Standalone .comment c.text.toList) :
    Lines (c.text ++ style.newline) [⟨.comment, c.textBefore gap⟩] := by
  intro k rest
  rw [String.toList_append, hlines.toList_newline, Comment.textBefore]
  cases hblock : c.isBlock with
  | true =>
    -- The comment ends at its marker, and the gap stands behind it.
    obtain ⟨cs, htext, hread⟩ :=
      h.read_blockComment (k := k) (beq_iff_eq.1 hblock) (gap ++ '\n' :: rest)
    have hgap : ∀ d ∈ gap ++ ['\n'], isGap d := hlines.toList_newline ▸ hlines.isGap_newline
    have hrest := scans_gap (k := k.after .comment) hgap rest
    rw [List.append_assoc, List.singleton_append] at hrest
    have hscans := Scans.token rfl hread nofun hrest
    rw [← List.cons_append, ← htext, String.ofList_toList] at hscans
    simp only [List.append_assoc, List.singleton_append, if_true]
    exact ⟨_, hscans⟩
  | false =>
    -- The comment goes on to the newline.
    have hline : c.text.toList.take 2 ≠ ['/', '*'] := by simpa [Comment.isBlock] using hblock
    obtain ⟨d, ds, htext, hgap, -, hread⟩ :=
      (h.append_gap hline hlines.isGap_gap).read_comment (k := k) rest
    have hscans := Scans.token hgap hread nofun
      (.gap (c := '\n') rfl (.done (k.after .comment) rest))
    rw [← List.cons_append, ← htext, String.ofList_append, String.ofList_toList] at hscans
    simp only [List.append_assoc, List.singleton_append] at hscans ⊢
    exact ⟨_, hscans⟩

theorem lines_comments (hlines : style.EndsLines gap) {groups : List CommentGroup}
    (h : ∀ g ∈ groups, ∀ c ∈ g.toList, Standalone .comment c.text.toList) :
    Lines (String.join (groups.map (CommentGroup.layout style)))
      (groups.flatMap fun g => g.toList.map fun c => ⟨.comment, c.textBefore gap⟩) := by
  refine lines_join fun g hg => ?_
  rw [List.map_eq_flatMap]
  exact lines_join fun c hc => lines_comment hlines (h g hg c hc)

end Clauses

/-! ### Statements -/

namespace Statement

/-- The names, literals and comments in the statement are tokens by themselves. -/
structure Legible (s : Statement) : Prop where
  leaves : ∀ l ∈ s.leaves, l.Legible
  comments : ∀ g ∈ s.comments, ∀ c ∈ g.toList, Standalone .comment c.text.toList

/-- No test for null in the statement is the operand of a prefix operator or of a test for null. -/
def NullTestsApart (s : Statement) : Prop := ∀ e ∈ s.exprs, e.NullTestsApart

instance (s : Statement) : Decidable s.NullTestsApart :=
  inferInstanceAs (Decidable (∀ e ∈ s.exprs, e.NullTestsApart))

/-- No test for null in the statement is the operand of a prefix operator. -/
def NullTestsUnsigned (s : Statement) : Prop := ∀ e ∈ s.exprs, e.NullTestsUnsigned

theorem NullTestsApart.unsigned {s : Statement} (h : s.NullTestsApart) : s.NullTestsUnsigned :=
  fun e he => (h e he).unsigned

/-- The statement as it is read from its layout, but for comments. -/
def written (s : Statement) : Statement := s.mapExprs Expr.written

/-- The texts of the comments as they are read from lines that end with the gap and a newline. -/
def commentTextsBefore (gap : List Char) (s : Statement) : List String :=
  s.comments.flatMap fun g => g.toList.map (Comment.textBefore gap)

/-- The words of those comments. -/
def commentWords (gap : List Char) (s : Statement) : List Word :=
  (s.commentTextsBefore gap).map fun text => ⟨.comment, text⟩

/-- Where nothing stands before the newline, the comments are read as they are. -/
theorem commentTextsBefore_nil (s : Statement) : s.commentTextsBefore [] = s.commentTexts := by
  have htext : Comment.textBefore [] = Comment.text := funext fun c => by
    unfold Comment.textBefore
    split
    · rfl
    · exact String.append_empty
  rw [commentTextsBefore, htext, commentTexts]

theorem yield_written (s : Statement) :
    s.written.yield =
      ([.fixed (.keyword .SELECT)] ++
        (Leaf.list (fun x => x.expr.written.leaves ++ x.asName.elim [] Alias.leaves)
          s.select.columns.toList).map Leaf.word) ++
      ([.fixed (.keyword .FROM)] ++
        (Leaf.list Table.leaves s.fromClause.tables.toList).map Leaf.word) ++
      s.whereClause.elim [] (fun w => [.fixed (.keyword .WHERE)] ++ w.cond.written.yield) ++
      s.groupBy.elim [] (fun b => [.fixed (.keyword .GROUP), .fixed (.keyword .BY)] ++
        (Leaf.list (fun x => x.written.leaves) b.items.toList).map Leaf.word) ++
      s.orderBy.elim [] (fun b => [.fixed (.keyword .ORDER), .fixed (.keyword .BY)] ++
        (Leaf.list (fun x => x.written.leaves) b.items.toList).map Leaf.word) := by
  have hby : ∀ (k : Keyword) (c : Option ByClause),
      ((c.map fun b => { b with items := b.items.map Expr.written }).elim []
        (ByClause.leaves k)).map Leaf.word =
      c.elim [] (fun b => [.fixed (.keyword k), .fixed (.keyword .BY)] ++
        (Leaf.list (fun x => x.written.leaves) b.items.toList).map Leaf.word) := by
    intro k c
    cases c with
    | none => rfl
    | some b =>
      show (ByClause.leaves k { b with items := b.items.map Expr.written }).map Leaf.word = _
      rw [ByClause.leaves, NonemptyList.toList_map, Leaf.list_map]
      rfl
  have hwhere : ((s.whereClause.map fun w => { w with cond := w.cond.written }).elim []
        WhereClause.leaves).map Leaf.word =
      s.whereClause.elim [] (fun w => [.fixed (.keyword .WHERE)] ++ w.cond.written.yield) := by
    cases s.whereClause <;> rfl
  have hselect : (SelectClause.leaves ⟨s.select.pos,
        s.select.columns.map fun c => { c with expr := c.expr.written }⟩).map Leaf.word =
      [.fixed (.keyword .SELECT)] ++
        (Leaf.list (fun x => x.expr.written.leaves ++ x.asName.elim [] Alias.leaves)
          s.select.columns.toList).map Leaf.word := by
    rw [SelectClause.leaves, NonemptyList.toList_map, Leaf.list_map]
    rfl
  simp only [yield, Statement.leaves, List.map_append, written, mapExprs, hby, hwhere, hselect]
  rfl

/-- The layout is read as the comments and then the written statement, perhaps with a semicolon. -/
theorem scans_layout {style : Style} {gap : List Char} (hlines : style.EndsLines gap)
    {s : Statement} (hlegible : s.Legible) (hnull : s.NullTestsUnsigned) (k : Kind) :
    ∃ k', Scans k (s.layout style).toList
      (s.commentWords gap ++ s.written.yield ++ if style.semicolon then [.fixed .semicolon] else [])
      k' [] := by
  obtain ⟨hselectNull, hwhereNull, hgroupNull, horderNull⟩ := forall_exprs_iff.1 hnull
  have hleaves := hlegible.leaves
  simp only [Statement.leaves, List.forall_mem_append] at hleaves
  obtain ⟨⟨⟨⟨hselect, hfrom⟩, hwhere⟩, hgroup⟩, horder⟩ := hleaves
  have hcolumns : ∀ x ∈ s.select.columns.toList, ∀ l ∈ x.leaves, l.Legible := by
    intro x hx l hl
    exact hselect l (List.mem_cons_of_mem _ (Leaf.subset_list hx hl))
  have htables : ∀ x ∈ s.fromClause.tables.toList, ∀ l ∈ x.leaves, l.Legible := by
    intro x hx l hl
    exact hfrom l (List.mem_cons_of_mem _ (Leaf.subset_list hx hl))
  have hitems : ∀ (k : Keyword) (c : Option ByClause),
      (∀ l ∈ c.elim [] (ByClause.leaves k), l.Legible) →
      ∀ b ∈ c, ∀ x ∈ b.items.toList, x.Legible := by
    rintro k _ hb b rfl x hx l hl
    exact hb l (List.mem_cons_of_mem _ (List.mem_cons_of_mem _ (Leaf.subset_list hx hl)))
  have hcond : ∀ w ∈ s.whereClause, w.cond.Legible := by
    intro w hw l hl
    rw [hw] at hwhere
    exact hwhere l (List.mem_cons_of_mem _ hl)
  -- Whole lines are read alone, so the clauses are simply put together.
  have hclauses := (((((lines_comments hlines hlegible.comments).append
    (lines_selectClause hlines hcolumns hselectNull)).append
    (lines_fromClause hlines htables)).append
    (lines_optional fun w hw => lines_whereClause hlines (hcond w hw) (hwhereNull w hw))).append
    (lines_optional fun b hb => lines_byClause hlines .GROUP (hitems .GROUP _ hgroup b hb)
      (hgroupNull b hb))).append
    (lines_optional fun b hb => lines_byClause hlines .ORDER (hitems .ORDER _ horder b hb)
      (horderNull b hb))
  have hcomments : (s.comments.flatMap fun g => g.toList.map fun c =>
      (⟨.comment, c.textBefore gap⟩ : Word)) = s.commentWords gap := by
    simp [commentWords, commentTextsBefore, List.map_flatMap, Function.comp_def]
  have hsemicolon : Lines (if style.semicolon then ";" else "")
      (if style.semicolon then [.fixed .semicolon] else []) := by
    cases style.semicolon with
    | true => exact fun k rest => ⟨.semicolon, scans_symbol (c := ';') (by decide) rest⟩
    | false => exact Lines.nil
  obtain ⟨k', hscans⟩ := hclauses.append hsemicolon k []
  rw [hcomments, List.append_nil] at hscans
  rw [yield_written]
  simp only [List.append_assoc] at hscans ⊢
  exact ⟨k', hscans⟩

end Statement

end SqlFormatter
