import SqlFormatter.Proofs.Layout.Chain
import SqlFormatter.Proofs.Statement.Normal

/-!
# SqlFormatter.Proofs.Layout.Writer

The layout of a statement as a writer makes it, which goes from line to line and keeps a level of
indentation.

* A clause is a `Block`: keywords, and items with something between them. `Block.text` says by the
  number of each item what stands around it.
* `Writer.step` carries out one instruction, and fails if the level is to go below zero. Each clause
  raises the level in front of its first line end and lowers it in front of its last.
* `Writer.Admits level rest` is the invariant: from this level on the remaining instructions can be
  carried out, the level is 0 at all keywords and at the end, and 1 at most in between. One
  instruction keeps it (`Writer.Admits.step`), so any number does (`Writer.Admits.run`).
* `Statement.layout_blocks` is the main result.
-/

namespace SqlFormatter

/-! ### Clauses as blocks of lines -/

/-- A clause as it is laid out. -/
structure Block where
  /-- The keywords of the clause. -/
  keywords : String
  /-- The items, one to a line. -/
  items : NonemptyList String
  /-- What stands before each item but the first. -/
  lead : String := ""
  /-- What stands behind each item but the last. -/
  mark : String := ""

namespace Block

/-- The line of the item with `i` items before it, of `n` items in all: a newline and as many blanks
as the style has, and then the item. -/
def line (style : Style) (b : Block) (n : Nat) (item : String) (i : Nat) : String :=
  style.newline ++ String.ofList (List.replicate style.indentWidth ' ') ++
    (if 0 < i then b.lead else "") ++ item ++ (if i + 1 < n then b.mark else "")

/-- The keywords, the lines of the items, and a newline. -/
def text (style : Style) (b : Block) : String :=
  b.keywords ++
    String.join (b.items.toList.zipIdx.map fun (item, i) =>
      b.line style b.items.toList.length item i) ++
    style.newline

/-- The items of a list, with commas behind them. -/
def ofList (keywords : String) (items : NonemptyList String) : Block :=
  { keywords, items, mark := "," }

/-- The lines of a condition, with the operator of a chain in front of them. -/
def ofCondition (style : Style) (keywords : String) (cond : Expr) : Block :=
  match cond.binaryOp?.filter BinaryOp.isLogical with
  | none => { keywords, items := ⟨cond.text style, []⟩ }
  | some op =>
    { keywords, items := Expr.operandTexts style op (cond.chain op),
      lead := style.operator op ++ " " }

end Block

/-- The clauses of the statement that are there, in order. -/
def Statement.blocks (style : Style) (s : Statement) : List Block :=
  .ofList (style.keyword .SELECT) (s.select.columns.map (Column.text style)) ::
  .ofList (style.keyword .FROM) (s.fromClause.tables.map (Table.text style)) ::
  ((s.whereClause.map fun c => .ofCondition style (style.keyword .WHERE) c.cond).toList ++
    (s.groupBy.map fun c => .ofList (style.keyword .GROUP ++ " " ++ style.keyword .BY)
      (c.items.map (Expr.text style))).toList ++
    (s.orderBy.map fun c => .ofList (style.keyword .ORDER ++ " " ++ style.keyword .BY)
      (c.items.map (Expr.text style))).toList)

/-! ### Writers -/

/-- What a writer is told to do. -/
inductive Instruction where
  /-- Write the keywords of a clause. -/
  | keywords (text : String)
  /-- Write any other text. -/
  | text (text : String)
  /-- End the line, and indent the next one. -/
  | newline
  /-- Raise the level of indentation. -/
  | indent
  /-- Lower the level of indentation. -/
  | outdent
  deriving DecidableEq, Repr

/-- A writer in the middle of a text. -/
structure Writer where
  /-- The level of indentation. -/
  level : Nat := 0
  /-- What was written so far. -/
  written : String := ""
  deriving DecidableEq, Repr

namespace Writer

/-- Writes a text. -/
def write (w : Writer) (text : String) : Writer := { w with written := w.written ++ text }

/-- What ends a line when the level is `level`, with the blanks at the start of the next line. -/
def lineEnd (style : Style) (level : Nat) : String :=
  style.newline ++ String.ofList (List.replicate (level * style.indentWidth) ' ')

/-- Carries out one instruction. There is no level below zero. -/
def step (style : Style) (w : Writer) : Instruction → Option Writer
  | .keywords text | .text text => some (w.write text)
  | .newline => some (w.write (lineEnd style w.level))
  | .indent => some { w with level := w.level + 1 }
  | .outdent => if w.level = 0 then none else some { w with level := w.level - 1 }

/-- Carries out the instructions one after the other. -/
def run (style : Style) : Writer → List Instruction → Option Writer
  | w, [] => some w
  | w, i :: rest => (w.step style i).bind (run style · rest)

end Writer

/-- What a writer does for the item with `i` items before it, of `n` items in all. -/
def Block.stepsOfItem (b : Block) (n : Nat) (item : String) (i : Nat) : List Instruction :=
  (if 0 < i then [.text b.lead] else []) ++
    [.text item, if i + 1 < n then .text b.mark else .outdent, .newline]

/-- What a writer does for a clause. -/
def Block.steps (b : Block) : List Instruction :=
  [.keywords b.keywords, .indent, .newline] ++
    b.items.toList.zipIdx.flatMap fun (item, i) => b.stepsOfItem b.items.toList.length item i

/-- What a writer does for a statement. -/
def Statement.steps (style : Style) (s : Statement) : List Instruction :=
  (s.commentTexts.flatMap fun text => [.text text, .newline]) ++
    (s.blocks style).flatMap Block.steps ++ if style.semicolon then [.text ";"] else []

/-! ### What is written -/

namespace Writer

variable {style : Style} {w w' : Writer}

@[simp] theorem lineEnd_zero (style : Style) : lineEnd style 0 = style.newline := by
  simp [lineEnd]

@[simp] theorem lineEnd_one (style : Style) : lineEnd style 1 = style.indentedLine := by
  simp [lineEnd, Style.indentedLine]

theorem run_append (style : Style) (w : Writer) (front rest : List Instruction) :
    w.run style (front ++ rest) = (w.run style front).bind (run style · rest) := by
  induction front generalizing w with
  | nil => rfl
  | cons i front ih =>
    show (w.step style i).bind _ = ((w.step style i).bind _).bind _
    rw [Option.bind_assoc]
    exact Option.bind_congr fun w' _ => ih w'

/-- At level 0 the instructions write the text, and the level is 0 behind them. -/
def Writes (style : Style) (steps : List Instruction) (text : String) : Prop :=
  ∀ before, run style ⟨0, before⟩ steps = some ⟨0, before ++ text⟩

theorem Writes.nil : Writes style [] "" := fun before => by simp [run]

theorem Writes.text (text : String) : Writes style [.text text] text := fun _ => rfl

theorem Writes.append {front rest : List Instruction} {text text' : String}
    (h : Writes style front text) (h' : Writes style rest text') :
    Writes style (front ++ rest) (text ++ text') := by
  intro before
  rw [run_append, h before, Option.bind_some, h' (before ++ text), String.append_assoc]

theorem Writes.flatMap {α : Type} {steps : α → List Instruction} {text : α → String} {xs : List α}
    (h : ∀ x ∈ xs, Writes style (steps x) (text x)) :
    Writes style (xs.flatMap steps) (String.join (xs.map text)) := by
  induction xs with
  | nil => exact .nil
  | cons x xs ih =>
    rw [List.forall_mem_cons] at h
    rw [List.flatMap_cons, List.map_cons, String.join_cons]
    exact h.1.append (ih h.2)

section Items

variable {b : Block} {n i : Nat} {before : String}

/-- An item writes its line, and a line end at the level that it leaves. -/
theorem run_stepsOfItem (b : Block) (n : Nat) (item : String) (i : Nat) (before : String) :
    run style ⟨1, before ++ style.indentedLine⟩ (b.stepsOfItem n item i) =
      some (write ⟨if i + 1 < n then 1 else 0, before ++ b.line style n item i⟩
        (lineEnd style (if i + 1 < n then 1 else 0))) := by
  have hlead : run style ⟨1, before ++ style.indentedLine⟩
      (if 0 < i then [Instruction.text b.lead] else []) =
      some ⟨1, before ++ style.indentedLine ++ if 0 < i then b.lead else ""⟩ := by
    split <;> simp [run, step, write]
  rw [Block.stepsOfItem, run_append, hlead, Option.bind_some]
  by_cases hnext : i + 1 < n <;>
    simp [hnext, run, step, write, Block.line, Style.indentedLine, String.append_assoc]

/-- The items from one with `i` items before it on write their lines, and a newline. -/
theorem run_items (style : Style) (b : Block) (x : String) (xs : List String)
    (hn : n = i + (x :: xs).length) (before : String) :
    run style ⟨1, before ++ style.indentedLine⟩
        (((x :: xs).zipIdx i).flatMap fun (item, j) => b.stepsOfItem n item j) =
      some ⟨0, before ++
        String.join (((x :: xs).zipIdx i).map fun (item, j) => b.line style n item j) ++
          style.newline⟩ := by
  induction xs generalizing x i before with
  | nil =>
    have hlast : ¬i + 1 < n := by simp [hn]
    rw [List.zipIdx_cons, List.flatMap_cons, run_append, run_stepsOfItem, if_neg hlast]
    simp [run, write]
  | cons y ys ih =>
    have hnext : i + 1 < n := by simp [hn]
    have hrest := ih y (i := i + 1) (by simp only [hn, List.length_cons]; omega)
      (before ++ b.line style n x i)
    rw [List.zipIdx_cons, List.flatMap_cons, run_append, run_stepsOfItem, if_pos hnext,
      Option.bind_some, write, lineEnd_one, hrest]
    simp [String.append_assoc]

end Items

/-- A clause writes its block. -/
theorem writes_block (style : Style) (b : Block) : Writes style b.steps (b.text style) := by
  intro before
  obtain ⟨keywords, ⟨x, xs⟩, lead, mark⟩ := b
  have hitems := run_items style ⟨keywords, ⟨x, xs⟩, lead, mark⟩ x xs
    (Nat.zero_add _).symm (before ++ keywords)
  rw [Block.steps, run_append]
  show run style ⟨1, before ++ keywords ++ lineEnd style 1⟩ _ = _
  rw [lineEnd_one]
  refine hitems.trans ?_
  simp only [Block.text, NonemptyList.toList, String.append_assoc]

end Writer

/-! ### Blocks in the layout -/

namespace Block

theorem join_lines (style : Style) (b : Block) {n : Nat} (x : String) (xs : List String) (i : Nat)
    (hn : n = i + (x :: xs).length) :
    String.join (((x :: xs).zipIdx i).map fun (item, j) => b.line style n item j) =
      style.indentedLine ++ (if 0 < i then b.lead else "") ++ x ++
        String.join (xs.map fun y => b.mark ++ style.indentedLine ++ (b.lead ++ y)) := by
  induction xs generalizing x i with
  | nil => simp [line, Style.indentedLine, hn]
  | cons y ys ih =>
    have hnext : i + 1 < n := by simp [hn]
    have hrest := ih y (i + 1) (by simp only [hn, List.length_cons]; omega)
    rw [List.zipIdx_cons, List.map_cons, String.join_cons, hrest]
    simp [line, Style.indentedLine, hnext, String.append_assoc]

/-- A block is laid out with the mark as separator of its lines. -/
theorem text_eq (style : Style) (b : Block) :
    b.text style =
      style.block b.keywords b.mark ⟨b.items.first, b.items.others.map (b.lead ++ ·)⟩ := by
  obtain ⟨keywords, ⟨x, xs⟩, lead, mark⟩ := b
  have hlines := join_lines style ⟨keywords, ⟨x, xs⟩, lead, mark⟩ x xs 0 (Nat.zero_add _).symm
  have hitems := intercalate_eq_join (mark ++ style.indentedLine) id x (xs.map (lead ++ ·))
  rw [List.map_id, List.map_map] at hitems
  simp only [text, Style.block, NonemptyList.toList, hlines, hitems]
  simp [Function.comp_def, String.append_assoc]

theorem text_ofList (style : Style) (keywords : String) (items : NonemptyList String) :
    (ofList keywords items).text style = style.block keywords "," items := by
  rw [text_eq]
  simp [ofList]

theorem text_ofCondition (style : Style) (keywords : String) (cond : Expr) :
    (ofCondition style keywords cond).text style =
      style.block keywords "" (cond.conditionLines style) := by
  rw [text_eq]
  unfold ofCondition Expr.conditionLines
  cases cond.binaryOp?.filter BinaryOp.isLogical with
  | none => rfl
  | some op => simp only [Expr.operandTexts, List.map_map, Function.comp_def]

end Block

theorem Statement.layout_eq_blocks (style : Style) (s : Statement) :
    s.layout style = String.join (s.commentTexts.map (· ++ style.newline)) ++
      String.join ((s.blocks style).map (Block.text style)) ++
        if style.semicolon then ";" else "" := by
  have hcomments : String.join (s.comments.map (CommentGroup.layout style)) =
      String.join (s.commentTexts.map (· ++ style.newline)) := by
    rw [commentTexts, List.map_flatMap]
    induction s.comments with
    | nil => rfl
    | cons g groups ih =>
      rw [List.map_cons, String.join_cons, ih, List.flatMap_cons, String.join_append,
        List.map_map]
      rfl
  have hoptional : ∀ {α : Type} (c : Option α) (layout : α → String) (block : α → Block),
      (∀ x, (block x).text style = layout x) →
      (c.map layout).getD "" = String.join ((c.map block).toList.map (Block.text style)) := by
    intro α c layout block h
    cases c with
    | none => rfl
    | some x => simp [h]
  have hwhere := hoptional s.whereClause (WhereClause.layout style) _ fun c =>
    Block.text_ofCondition style _ c.cond
  have hby : ∀ (k : Keyword) (c : Option ByClause),
      (c.map (ByClause.layout style k)).getD "" = _ := fun k c =>
    hoptional c (ByClause.layout style k) _ fun c => Block.text_ofList style _ _
  rw [layout, hcomments, hwhere, hby, hby, blocks, List.map_cons, List.map_cons, List.map_append,
    List.map_append, String.join_cons, String.join_cons, String.join_append, String.join_append,
    Block.text_ofList, Block.text_ofList]
  simp only [SelectClause.layout, FromClause.layout, String.append_assoc]

/-! ### The level of indentation -/

namespace Writer

/-- From level `level` on the instructions can be carried out, with the level at 0 in front of
keywords and at the end, and at 1 at most in between. -/
def Admits : Nat → List Instruction → Prop
  | level, [] => level = 0
  | level, .keywords _ :: rest => level = 0 ∧ Admits level rest
  | level, .text _ :: rest | level, .newline :: rest => Admits level rest
  | level, .indent :: rest => level = 0 ∧ Admits 1 rest
  | level, .outdent :: rest => level = 1 ∧ Admits 0 rest

variable {w : Writer} {level : Nat} {rest : List Instruction}

theorem Admits.level_le (h : Admits level rest) : level ≤ 1 := by
  fun_induction Admits level rest with
  | case1 => omega
  | case2 level _ rest ih => exact ih h.2
  | case3 level _ rest ih => exact ih h
  | case4 level rest ih => exact ih h
  | case5 => omega
  | case6 => omega

/-- One instruction can be carried out, and so can the others after it. -/
theorem Admits.step (style : Style) {i : Instruction} (h : Admits w.level (i :: rest)) :
    ∃ w', w.step style i = some w' ∧ Admits w'.level rest := by
  cases i with
  | keywords text => exact ⟨_, rfl, h.2⟩
  | text text => exact ⟨_, rfl, h⟩
  | newline => exact ⟨_, rfl, h⟩
  | indent =>
    obtain ⟨hlevel, hrest⟩ := h
    exact ⟨_, rfl, by simpa [hlevel] using hrest⟩
  | outdent =>
    obtain ⟨hlevel, hrest⟩ := h
    exact ⟨_, if_neg (by omega), by simpa [hlevel] using hrest⟩

/-- Any number of instructions can be carried out, and so can the others after them. -/
theorem Admits.run (style : Style) {front : List Instruction}
    (h : Admits w.level (front ++ rest)) :
    ∃ w', w.run style front = some w' ∧ Admits w'.level rest := by
  induction front generalizing w with
  | nil => exact ⟨w, rfl, h⟩
  | cons i front ih =>
    obtain ⟨w', hstep, hrest⟩ := h.step style
    obtain ⟨w'', hrun, hafter⟩ := ih hrest
    exact ⟨w'', by rw [Writer.run, hstep, Option.bind_some, hrun], hafter⟩

theorem admits_items (b : Block) (x : String) (xs : List String) {n i : Nat}
    (hn : n = i + (x :: xs).length) (h : Admits 0 rest) :
    Admits 1 ((((x :: xs).zipIdx i).flatMap fun (item, j) => b.stepsOfItem n item j) ++ rest) := by
  have hitem : ∀ x i rest, Admits (if i + 1 < n then 1 else 0) rest →
      Admits 1 (b.stepsOfItem n x i ++ rest) := by
    intro x i rest h
    unfold Block.stepsOfItem
    by_cases hfirst : 0 < i <;> by_cases hnext : i + 1 < n <;>
      simpa [hfirst, hnext, Admits] using h
  induction xs generalizing x i with
  | nil =>
    rw [List.zipIdx_cons, List.flatMap_cons, List.append_assoc]
    refine hitem x i _ ?_
    rw [if_neg (by simp [hn])]
    exact h
  | cons y ys ih =>
    rw [List.zipIdx_cons, List.flatMap_cons, List.append_assoc]
    refine hitem x i _ ?_
    rw [if_pos (by simp [hn])]
    exact ih y (by simp only [hn, List.length_cons]; omega)

theorem admits_block (b : Block) (h : Admits 0 rest) : Admits 0 (b.steps ++ rest) := by
  have hitems := admits_items b b.items.first b.items.others (Nat.zero_add _).symm h
  exact ⟨rfl, rfl, hitems⟩

theorem admits_steps (style : Style) (s : Statement) : Admits 0 (s.steps style) := by
  have hblocks : ∀ (bs : List Block) rest, Admits 0 rest →
      Admits 0 (bs.flatMap Block.steps ++ rest) := by
    intro bs rest h
    induction bs with
    | nil => exact h
    | cons b bs ih =>
      rw [List.flatMap_cons, List.append_assoc]
      exact admits_block b ih
  have hcomments : ∀ (texts : List String) rest, Admits 0 rest →
      Admits 0 ((texts.flatMap fun text => [.text text, .newline]) ++ rest) := by
    intro texts rest h
    induction texts with
    | nil => exact h
    | cons text texts ih => exact ih
  rw [Statement.steps, List.append_assoc]
  refine hcomments _ _ (hblocks _ _ ?_)
  split <;> rfl

theorem writes_steps (style : Style) (s : Statement) :
    Writes style (s.steps style) (s.layout style) := by
  have hcomment : ∀ text, Writes style [.text text, .newline] (text ++ style.newline) := by
    intro text before
    simp [Writer.run, Writer.step, write, String.append_assoc]
  have hend : Writes style (if style.semicolon then [.text ";"] else [])
      (if style.semicolon then ";" else "") := by
    split
    · exact .text ";"
    · exact .nil
  rw [s.layout_eq_blocks style]
  exact ((Writes.flatMap fun text _ => hcomment text).append
    (.flatMap fun b _ => writes_block style b)).append hend

end Writer

/-- The layout of a statement: a line for each comment, a block for each clause that is there, in
order, and perhaps a semicolon. A writer that keeps a level of indentation writes the same; whenever
it is stopped, the level is 1 at most, and 0 where the keywords of a clause come next, and at the
end. -/
theorem Statement.layout_blocks (style : Style) (s : Statement) :
    s.layout style = String.join (s.commentTexts.map (· ++ style.newline)) ++
        String.join ((s.blocks style).map (Block.text style)) ++
        (if style.semicolon then ";" else "") ∧
      ∀ n, ∃ w, Writer.run style {} ((s.steps style).take n) = some w ∧ w.level ≤ 1 ∧
        (∀ text, (s.steps style)[n]? = some (.keywords text) → w.level = 0) ∧
        ((s.steps style).length ≤ n → w.level = 0 ∧ w.written = s.layout style) := by
  refine ⟨s.layout_eq_blocks style, fun n => ?_⟩
  have hadmits : Writer.Admits 0 ((s.steps style).take n ++ (s.steps style).drop n) :=
    (List.take_append_drop ..).symm ▸ Writer.admits_steps style s
  obtain ⟨w, hrun, hafter⟩ := Writer.Admits.run (w := {}) style hadmits
  refine ⟨w, hrun, hafter.level_le, fun text htext => ?_, fun hn => ?_⟩
  · rw [List.drop_eq_getElem?_toList_append, htext] at hafter
    exact hafter.1
  · have hall : some w = some ⟨0, s.layout style⟩ := by
      rw [← hrun, List.take_of_length_le hn]
      simpa using Writer.writes_steps style s ""
    cases hall
    exact ⟨rfl, rfl⟩

end SqlFormatter
