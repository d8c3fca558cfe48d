import SqlFormatter.Layout.Expression
import SqlFormatter.Proofs.Token.Scans

/-!
# SqlFormatter.Proofs.Layout.Piece

The pieces of text that a layout is put together from, and the words that they are read as.

* `Prints text ws`: the text is read as the words `ws` where an operand is expected, if what follows
  delimits it. That is so of expressions and of lists of them.
* `Continues text ws`: the text is read as the words `ws` behind anything, and delimits what is
  before it. That is so of a blank and a keyword, or of a comma, with an operand behind it.
-/

namespace SqlFormatter

section Tokens

variable {k : Kind} {rest : List Char}

theorem scans_of_read {kind : Kind} {c : Char} {cs text : List Char} (hgap : isGap c = false)
    (hread : Lexeme.read false k c cs = ⟨text, rest, .ok kind⟩) (hcomment : kind ≠ .comment)
    (hend : kind ≠ .endOfInput) : Scans k (c :: cs) [.of kind (String.ofList text)] kind rest := by
  refine .token hgap hread hend ?_
  rw [Kind.after, if_neg hcomment]
  exact .done kind rest

/-- The tokens of one character that starts no other token. -/
def symbols : List (Char × Kind) :=
  [(',', .comma), ('(', .leftParen), (')', .rightParen), (';', .semicolon), ('.', .dot),
    ('*', .star), ('+', .plus)]

theorem scans_symbol {c : Char} {kind : Kind} (h : (c, kind) ∈ symbols) (rest : List Char) :
    Scans k (c :: rest) [.fixed kind] kind rest := by
  have hread : isGap c = false ∧ Lexeme.read false k c rest = ⟨[c], rest, .ok kind⟩ ∧
      kind ≠ .comment ∧ kind ≠ .endOfInput ∧ kind.keepsText = false := by
    simp only [symbols, List.mem_cons, List.not_mem_nil, or_false, Prod.mk.injEq] at h
    rcases h with ⟨rfl, rfl⟩ | ⟨rfl, rfl⟩ | ⟨rfl, rfl⟩ | ⟨rfl, rfl⟩ | ⟨rfl, rfl⟩ | ⟨rfl, rfl⟩ |
      ⟨rfl, rfl⟩ <;> exact ⟨rfl, by cases rest <;> rfl, nofun, nofun, rfl⟩
  obtain ⟨hgap, hread, hcomment, hend, hfixed⟩ := hread
  have hscans := scans_of_read hgap hread hcomment hend
  rwa [Word.of, hfixed, if_neg Bool.false_ne_true] at hscans

theorem isGap_blank : ∀ c ∈ " ".toList, isGap c := List.all_eq_true.1 (by decide)

/-- A gap before a text. -/
theorem scans_gap {gap : List Char} (h : ∀ c ∈ gap, isGap c) (rest : List Char) :
    Scans k (gap ++ rest) [] k rest := by
  induction gap with
  | nil => exact .done k rest
  | cons c cs ih =>
    rw [List.forall_mem_cons] at h
    exact .gap h.1 (ih h.2)

theorem toList_keyword (style : Style) (kw : Keyword) :
    (style.keyword kw).toList = kw.word.toList ∨
      (style.keyword kw).toList = kw.word.toList.map Char.toLower := by
  unfold Style.keyword
  split
  · exact Or.inl rfl
  · exact Or.inr String.toList_map

/-- A keyword is a word in either case. -/
theorem keyword_is_word (style : Style) (kw : Keyword) :
    ∃ c cs, (style.keyword kw).toList = c :: cs ∧ isLetter c ∧ (∀ d ∈ cs, isWordChar d) ∧
      wordKind (c :: cs) = .keyword kw := by
  rcases toList_keyword style kw with h | h <;> rw [h] <;> cases kw <;>
    exact ⟨_, _, rfl, by decide, List.all_eq_true.1 (by decide), by decide⟩

theorem scans_keyword (style : Style) (kw : Keyword) (hrest : EndsWord rest) :
    Scans k ((style.keyword kw).toList ++ rest) [.fixed (.keyword kw)] (.keyword kw) rest := by
  obtain ⟨c, cs, htext, hc, hcs, hkind⟩ := keyword_is_word style kw
  have hread := read_word (k := k) hc hcs hrest
  rw [hkind] at hread
  rw [htext]
  exact scans_of_read (isGap_of_isBlank (isBlank_of_isLetter hc)) hread nofun nofun

theorem operator_or (style : Style) : style.operator .or = style.keyword .OR := by
  cases hcapitals : style.capitals <;>
    simp [Style.operator, Style.keyword, hcapitals, BinaryOp.isLogical, BinaryOp.word, Keyword.word]

theorem operator_and (style : Style) : style.operator .and = style.keyword .AND := by
  cases hcapitals : style.capitals <;>
    simp [Style.operator, Style.keyword, hcapitals, BinaryOp.isLogical, BinaryOp.word, Keyword.word]

theorem operator_of_not_logical (style : Style) {op : BinaryOp} (h : op.isLogical = false) :
    style.operator op = op.word := by
  rw [Style.operator, h]
  simp

theorem endsWord_blank (rest : List Char) : EndsWord (' ' :: rest) :=
  (delimited_cons (by decide) rest).endsWord

theorem kind_operator (op : BinaryOp) :
    op.kind ≠ .comment ∧ op.kind ≠ .endOfInput ∧ op.kind.keepsText = false := by
  cases op <;> decide

/-- An operator with a blank behind it is not taken for another token. -/
theorem scans_operator (style : Style) (op : BinaryOp) (rest : List Char) :
    Scans k ((style.operator op).toList ++ ' ' :: rest) [.fixed op.kind] op.kind (' ' :: rest) := by
  cases hlogical : op.isLogical with
  | true =>
    -- AND and OR are keywords, in the case of the style.
    cases op with
    | or =>
      rw [operator_or]
      exact scans_keyword style .OR (endsWord_blank rest)
    | and =>
      rw [operator_and]
      exact scans_keyword style .AND (endsWord_blank rest)
    | _ => cases hlogical
  | false =>
    rw [operator_of_not_logical style hlogical]
    have hread : ∃ c cs, op.word.toList = c :: cs ∧ isGap c = false ∧
        Lexeme.read false k c (cs ++ ' ' :: rest) = ⟨c :: cs, ' ' :: rest, .ok op.kind⟩ := by
      cases op with
      | or | and => cases hlogical
      | _ => exact ⟨_, _, rfl, rfl, rfl⟩
    obtain ⟨c, cs, htext, hgap, hread⟩ := hread
    obtain ⟨hcomment, hend, hfixed⟩ := kind_operator op
    have hscans := scans_of_read hgap hread hcomment hend
    rw [htext]
    rwa [Word.of, hfixed, if_neg Bool.false_ne_true] at hscans

theorem scans_name {name : String} (h : Standalone .ident name.toList) (hrest : EndsWord rest) :
    Scans k (name.toList ++ rest) [⟨.ident, name⟩] .ident rest := by
  generalize hkind : Kind.ident = kind at h
  generalize htext : name.toList = text at h
  cases h with
  | word hc hcs =>
    have hscans := scans_of_read (k := k) (isGap_of_isBlank (isBlank_of_isLetter hc))
      (read_word hc hcs hrest) (hkind ▸ nofun) (hkind ▸ nofun)
    rw [← hkind, ← htext, String.ofList_toList] at hscans
    rw [← hkind]
    exact hscans
  | @number _ _ _ part => cases part <;> cases hkind
  | _ => cases hkind

theorem scans_literal {kind : LiteralKind} {text : String}
    (h : Standalone kind.kind text.toList) (hk : k.endsOperand = false) (hrest : Delimited rest) :
    Scans k (text.toList ++ rest) [⟨kind.kind, text⟩] kind.kind rest := by
  obtain ⟨c, cs, htext, hgap, hread⟩ := h.read (by cases kind <;> exact nofun) hk hrest
  have hscans := scans_of_read hgap (htext ▸ hread) (by cases kind <;> exact nofun)
    (by cases kind <;> exact nofun)
  rw [← htext, String.ofList_toList] at hscans
  rw [htext]
  rwa [Word.of, if_pos (by cases kind <;> rfl)] at hscans

end Tokens

/-! ### Operands and what may follow them -/

/-- Where an operand is expected, the text is read as the words, if what follows delimits it. -/
def Prints (text : String) (ws : List Word) : Prop :=
  ∀ ⦃k rest⦄, k.endsOperand = false → Delimited rest →
    ∃ k', Scans k (text.toList ++ rest) ws k' rest

/-- Behind anything that it delimits, the text is read as the words. -/
def Continues (text : String) (ws : List Word) : Prop :=
  ∀ ⦃rest⦄, Delimited rest → Delimited (text.toList ++ rest) ∧
    ∀ k, ∃ k', Scans k (text.toList ++ rest) ws k' rest

variable {text text' : String} {ws vs : List Word}

theorem Continues.nil : Continues "" [] := fun rest hrest => ⟨hrest, fun k => ⟨k, .done k rest⟩⟩

theorem Continues.append (h : Continues text ws) (h' : Continues text' vs) :
    Continues (text ++ text') (ws ++ vs) := by
  intro rest hrest
  obtain ⟨hmid, hscans'⟩ := h' hrest
  obtain ⟨hfront, hscans⟩ := h hmid
  rw [String.toList_append, List.append_assoc]
  refine ⟨hfront, fun k => ?_⟩
  obtain ⟨k', hfirst⟩ := hscans k
  obtain ⟨k'', hsecond⟩ := hscans' k'
  exact ⟨k'', hfirst.trans hsecond⟩

theorem Prints.append (h : Prints text ws) (h' : Continues text' vs) :
    Prints (text ++ text') (ws ++ vs) := by
  intro k rest hk hrest
  obtain ⟨hmid, hscans'⟩ := h' hrest
  obtain ⟨k', hfirst⟩ := h hk hmid
  obtain ⟨k'', hsecond⟩ := hscans' k'
  rw [String.toList_append, List.append_assoc]
  exact ⟨k'', hfirst.trans hsecond⟩

theorem continues_keyword (style : Style) (kw : Keyword) :
    Continues (" " ++ style.keyword kw) [.fixed (.keyword kw)] := by
  intro rest hrest
  rw [String.toList_append, List.append_assoc]
  exact ⟨delimited_cons (by decide) _, fun k =>
    ⟨_, .gap (c := ' ') rfl (scans_keyword style kw hrest.endsWord)⟩⟩

/-- A keyword with an operand behind it. -/
theorem Prints.after_keyword (style : Style) (kw : Keyword)
    (hkw : (Kind.keyword kw).endsOperand = false) (h : Prints text ws) :
    Continues (" " ++ style.keyword kw ++ " " ++ text) (.fixed (.keyword kw) :: ws) := by
  intro rest hrest
  obtain ⟨k', hscans⟩ := h hkw hrest
  simp only [String.toList_append, List.append_assoc]
  refine ⟨delimited_cons (by decide) _, fun k => ⟨k', .gap (c := ' ') rfl ?_⟩⟩
  exact (scans_keyword style kw (endsWord_blank _)).trans (.gap (c := ' ') rfl hscans)

/-- A binary operator with its right operand, behind a gap. -/
theorem Prints.after_operator (style : Style) (op : BinaryOp) {gap : String}
    (hgap : ∀ c ∈ gap.toList, isGap c) (hfront : Delimited gap.toList) (h : Prints text ws) :
    Continues (gap ++ style.operator op ++ " " ++ text) (.fixed op.kind :: ws) := by
  intro rest hrest
  obtain ⟨k', hscans⟩ := h (k := op.kind) (by cases op <;> rfl) hrest
  simp only [String.toList_append, List.append_assoc]
  refine ⟨hfront.append _, fun k => ⟨k', (scans_gap hgap _).trans ?_⟩⟩
  exact (scans_operator style op _).trans (.gap (c := ' ') rfl hscans)

/-- A comma and a gap, with an item behind them. -/
theorem Prints.after_comma {gap : String} (hgap : ∀ c ∈ gap.toList, isGap c) (h : Prints text ws) :
    Continues ("," ++ gap ++ text) (.fixed .comma :: ws) := by
  intro rest hrest
  obtain ⟨k', hscans⟩ := h (k := .comma) rfl hrest
  simp only [String.toList_append, List.append_assoc]
  refine ⟨delimited_cons (by decide) _, fun k => ⟨k', ?_⟩⟩
  exact (scans_symbol (by decide) _).trans ((scans_gap hgap _).trans hscans)

theorem Prints.parenthesized (h : Prints text ws) :
    Prints (parenthesized text) (.fixed .leftParen :: (ws ++ [.fixed .rightParen])) := by
  intro k rest hk hrest
  obtain ⟨k', hscans⟩ := h (k := .leftParen) rfl (delimited_cons (d := ')') (by decide) rest)
  simp only [SqlFormatter.parenthesized, String.toList_append, List.append_assoc]
  exact ⟨_, (scans_symbol (by decide) _).trans (hscans.trans (scans_symbol (by decide) rest))⟩

/-- Pieces that continue each other. -/
theorem continues_join {α : Type} {text : α → String} {words : α → List Word} {xs : List α}
    (h : ∀ x ∈ xs, Continues (text x) (words x)) :
    Continues (String.join (xs.map text)) (xs.flatMap words) := by
  induction xs with
  | nil => exact Continues.nil
  | cons x xs ih =>
    rw [List.forall_mem_cons] at h
    rw [List.map_cons, String.join_cons, List.flatMap_cons]
    exact h.1.append (ih h.2)

/-- A list of texts, with the separator moved to each text but the first. -/
theorem intercalate_eq_join {α : Type} (separator : String) (text : α → String) (x : α)
    (xs : List α) :
    separator.intercalate ((x :: xs).map text) =
      text x ++ String.join (xs.map fun y => separator ++ text y) := by
  induction xs generalizing x with
  | nil => simp
  | cons y ys ih =>
    rw [List.map_cons, List.map_cons, String.intercalate_cons_cons, ← List.map_cons, ih,
      List.map_cons, String.join_cons]
    simp only [String.append_assoc]

/-- A list of items with commas and gaps between them. -/
theorem prints_list {α : Type} {gap : String} (hgap : ∀ c ∈ gap.toList, isGap c)
    {text : α → String} {leaves : α → List Leaf} {x : α} {xs : List α}
    (h : ∀ y ∈ x :: xs, Prints (text y) ((leaves y).map Leaf.word)) :
    Prints (("," ++ gap).intercalate ((x :: xs).map text))
      ((Leaf.list leaves (x :: xs)).map Leaf.word) := by
  rw [List.forall_mem_cons] at h
  rw [intercalate_eq_join, Leaf.list, List.map_append, List.map_flatMap]
  exact h.1.append (continues_join fun y hy => (h.2 y hy).after_comma hgap)

end SqlFormatter
