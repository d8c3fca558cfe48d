import Mathlib.Data.List.Induction
import SqlFormatter.Layout.Statement
import SqlFormatter.Proofs.Layout.Piece

/-!
# SqlFormatter.Proofs.Layout.Chain

A condition over several lines, next to the same condition on one line.

* `Expr.IsChain` says what the operands of a chain are without a walk down the tree: put together
  from the left they are the expression, and the first of them cannot be split any further. Only the
  operands that `Expr.chain` finds have that property (`Expr.chain_eq_iff`).
* The operands are in parentheses on lines of their own just where they are on one line
  (`Expr.intercalate_operandTexts`).
* `WhereClause.layout_lines` is the main result, on the layout of a whole WHERE clause.
-/

namespace SqlFormatter

namespace Expr

variable {op : BinaryOp} {e : Expr}

/-! ### The operands of a chain -/

/-- The expression that the operands make up from the left, where each operand after the first comes
with the position of the operator before it. -/
def joined (op : BinaryOp) (first : Expr) (links : List (Nat × Expr)) : Expr :=
  links.foldl (fun x link => .binary x link.1 op link.2) first

/-- The operands are those of the chain of operators `op` that `e` is. -/
structure IsChain (op : BinaryOp) (e : Expr) (operands : NonemptyList Expr) : Prop where
  /-- The first operand is no chain itself. -/
  first_ne : operands.first.binaryOp? ≠ some op
  /-- With operators at some positions the operands are the expression. -/
  exists_links : ∃ links, links.map Prod.snd = operands.others ∧
    joined op operands.first links = e

@[simp] theorem joined_append_singleton (first : Expr) (links : List (Nat × Expr)) (p : Nat)
    (y : Expr) : joined op first (links ++ [(p, y)]) = .binary (joined op first links) p op y := by
  simp [joined]

/-- What is no operation with `op` is a chain of one. -/
theorem chain_of_binaryOp?_ne (h : e.binaryOp? ≠ some op) : e.chain op = ⟨e, []⟩ := by
  cases e with
  | binary x p o y =>
    rw [chain, if_neg fun ho => h (congrArg some ho)]
  | _ => rfl

theorem chain_joined {first : Expr} (h : first.binaryOp? ≠ some op) (links : List (Nat × Expr)) :
    (joined op first links).chain op = ⟨first, links.map Prod.snd⟩ := by
  -- The operator at the root is the last one.
  induction links using List.reverseRecOn with
  | nil => exact chain_of_binaryOp?_ne h
  | append_singleton links link ih =>
    obtain ⟨p, y⟩ := link
    simp [chain, ih]

theorem isChain_chain (op : BinaryOp) (e : Expr) : e.IsChain op (e.chain op) := by
  have hsingle : ∀ {e : Expr}, e.binaryOp? ≠ some op → e.IsChain op ⟨e, []⟩ :=
    fun h => ⟨h, [], rfl, rfl⟩
  fun_induction chain op e with
  | case1 x p y operands ih =>
    obtain ⟨hfirst, links, hlinks, hjoined⟩ := ih
    exact ⟨hfirst, links ++ [(p, y)], by simp [hlinks, operands],
      by simp [operands, hjoined]⟩
  | case2 x p o y ho => exact hsingle fun heq => ho (Option.some.inj heq)
  | case3 e hbinary =>
    refine hsingle fun heq => ?_
    cases e with
    | binary x p o y => exact hbinary x p o y rfl
    | _ => cases heq

theorem chain_eq_iff {operands : NonemptyList Expr} :
    e.chain op = operands ↔ e.IsChain op operands := by
  constructor
  · rintro rfl
    exact isChain_chain op e
  · obtain ⟨first, others⟩ := operands
    rintro ⟨hfirst, links, rfl, rfl⟩
    exact chain_joined hfirst links

/-- An operation has at least two operands. -/
theorem two_le_length_chain (h : e.binaryOp? = some op) : 2 ≤ (e.chain op).toList.length := by
  cases e with
  | binary x p o y =>
    cases h
    simp [chain, NonemptyList.toList]
  | _ => cases h

/-! ### Their texts -/

/-- The operands of a chain of operators `op`, each on one line: only the first one is on the left
of an operator. -/
def operandTexts (style : Style) (op : BinaryOp) (operands : NonemptyList Expr) :
    NonemptyList String :=
  ⟨operands.first.leftOperand style op, operands.others.map (rightOperand style op)⟩

theorem leftOperand_of_binaryOp? (style : Style) (h : e.binaryOp? = some op) :
    e.leftOperand style op = e.text style := by
  have hnot : e.isLooserThan op = false := by simp [isLooserThan, h]
  rw [leftOperand, hnot]
  rfl

theorem text_binary (style : Style) (x : Expr) (p : Nat) (op : BinaryOp) (y : Expr) :
    (binary x p op y).text style =
      x.leftOperand style op ++ (" " ++ style.operator op ++ " " ++ y.rightOperand style op) := by
  simp only [text, leftOperand, rightOperand, String.append_assoc]

/-- With the operator between them, the texts of the operands are the chain on one line. -/
theorem intercalate_operandTexts (style : Style) (op : BinaryOp) (e : Expr) :
    (" " ++ style.operator op ++ " ").intercalate (operandTexts style op (e.chain op)).toList =
      e.leftOperand style op := by
  have hlist : ∀ operands : NonemptyList Expr,
      (" " ++ style.operator op ++ " ").intercalate (operandTexts style op operands).toList =
        operands.first.leftOperand style op ++ String.join (operands.others.map fun y =>
          " " ++ style.operator op ++ " " ++ y.rightOperand style op) := by
    intro operands
    have h := intercalate_eq_join (" " ++ style.operator op ++ " ") id
      (operands.first.leftOperand style op) (operands.others.map (rightOperand style op))
    rw [List.map_id, List.map_map] at h
    exact h
  rw [hlist]
  fun_induction chain op e with
  | case1 x p y operands ih =>
    rw [leftOperand_of_binaryOp? style (e := .binary x p op y) rfl, text_binary, ← ih]
    simp only [operands, List.map_append, List.map_cons, List.map_nil, String.join_append,
      String.join_cons, String.join_nil, String.append_empty, String.append_assoc]
  | case2 => simp
  | case3 => simp

end Expr

/-! ### Conditions over several lines -/

/-- The lines of a WHERE clause. A condition that is no chain of AND or OR stands on one line. Of a
chain each operand stands on a line of its own, with the operator before each but the first; there
are at least two, and no other operands make up the condition from the left. The line ends make no
difference: with blanks in their place the lines are the condition on one line. -/
theorem WhereClause.layout_lines (style : Style) (c : WhereClause) :
    ∃ lines : NonemptyList String,
      c.layout style = style.keyword .WHERE ++
        String.join (lines.toList.map (style.indentedLine ++ ·)) ++ style.newline ∧
      match c.cond.binaryOp?.filter BinaryOp.isLogical with
      | none => lines = ⟨c.cond.text style, []⟩
      | some op =>
        let operands := c.cond.chain op
        let texts := Expr.operandTexts style op operands
        2 ≤ operands.toList.length ∧ c.cond.IsChain op operands ∧
          (∀ others, c.cond.IsChain op others → others = operands) ∧
          lines = ⟨texts.first, texts.others.map fun text => style.operator op ++ " " ++ text⟩ ∧
          (" " ++ style.operator op ++ " ").intercalate texts.toList = c.cond.text style := by
  refine ⟨c.cond.conditionLines style, ?_, ?_⟩
  · have hjoin := intercalate_eq_join style.indentedLine id (c.cond.conditionLines style).first
      (c.cond.conditionLines style).others
    rw [List.map_id] at hjoin
    show _ ++ ("" ++ style.indentedLine).intercalate (_ :: _) ++ _ = _
    rw [String.empty_append, hjoin]
    simp only [NonemptyList.toList, List.map_cons, String.join_cons, String.append_assoc, id]
  · unfold Expr.conditionLines
    cases hop : c.cond.binaryOp?.filter BinaryOp.isLogical with
    | none => rfl
    | some op =>
      have hroot := (Option.filter_eq_some_iff.1 hop).1
      refine ⟨Expr.two_le_length_chain hroot, Expr.isChain_chain op c.cond,
        fun others h => (Expr.chain_eq_iff.2 h).symm, ?_, ?_⟩
      · simp only [Expr.operandTexts, List.map_map, Function.comp_def]
      · rw [Expr.intercalate_operandTexts, Expr.leftOperand_of_binaryOp? style hroot]

/-- The grouping of the operands shows in their lines. -/
example :
    let a : Expr := .column none ⟨0, "a"⟩
    let both : Expr := .binary a 0 .and a
    let either : Expr := .binary a 0 .or a
    ((Expr.binary (.binary either 0 .and a) 0 .and both).conditionLines {}).toList =
      ["(a OR a)", "AND a", "AND (a AND a)"] := by decide +kernel

end SqlFormatter
