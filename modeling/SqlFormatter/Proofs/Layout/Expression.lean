import SqlFormatter.Proofs.Layout.Guarded
import SqlFormatter.Proofs.Layout.Piece

/-!
# SqlFormatter.Proofs.Layout.Expression

An expression on one line is read as the words of `Expr.written` (`prints_text`), if its names and
literals are tokens by themselves (`Expr.Legible`) and no prefix operator has a test for null as its
operand (`Expr.NullTestsUnsigned`).

What a minus is read as is up to the text behind it: with a minus and a blank there it would start a
comment, and before a digit it is a sign. `Leads` rules out the one, and `startsWithDigit_text` says
where the other happens.
-/

namespace SqlFormatter

/-- The text of the leaf is a token of its kind, if the kind has texts. -/
def Leaf.Legible (l : Leaf) : Prop :=
  l.word.kind.keepsText → Standalone l.word.kind l.word.text.toList

namespace Expr

/-- The names and literals in the expression are tokens by themselves. -/
def Legible (e : Expr) : Prop := ∀ l ∈ e.leaves, l.Legible

/-- The tokens of a child are tokens of its parent. -/
theorem leaves_subset_of_mem_children (e : Expr) : ∀ c ∈ e.children, c.leaves ⊆ e.leaves := by
  cases e with
  | column | literal | wildcard => exact fun _ h => nomatch h
  | unary | isNull | paren => simp [children, leaves]
  | binary => simp [children, leaves]
  | call f l args r =>
    intro c h
    rw [leaves_call]
    have hlist : c.leaves ⊆ Leaf.list leaves args := Leaf.subset_list h
    intro m hm
    simp [hlist hm]
  | case p key first others otherwise q =>
    refine forall_children_case.2 ⟨?_, ?_, ?_⟩
    · rintro k rfl m hm
      simp [leaves_case, hm]
    · intro a ha
      have harm : a.leaves ⊆ (case p key first others otherwise q).leaves := by
        intro m hm
        have hmem : m ∈ (first :: others).flatMap Arm.leaves := List.mem_flatMap.2 ⟨a, ha, hm⟩
        rw [leaves_case]
        simp only [List.mem_cons, List.mem_append]
        exact Or.inr (Or.inl (Or.inl (Or.inr hmem)))
      constructor
      · intro m hm
        exact harm (by simp [Arm.leaves, hm])
      · intro m hm
        exact harm (by simp [Arm.leaves, hm])
    · rintro o rfl m hm
      simp [leaves_case, Otherwise.leaves, hm]

theorem Legible.child {e c : Expr} (h : e.Legible) (hc : c ∈ e.children) : c.Legible :=
  fun l hl => h l (leaves_subset_of_mem_children e c hc hl)

/-! ### The text and the tree read from it, in terms of the parts -/

theorem textsOfList_eq (style : Style) (es : List Expr) :
    textsOfList style es = es.map (text style) := by
  induction es with
  | nil => rfl
  | cons e es ih => rw [textsOfList, ih, List.map_cons]

theorem textOfArms_eq (style : Style) (as : List Arm) :
    textOfArms style as = String.join (as.map (textOfArm style)) := by
  induction as with
  | nil => rfl
  | cons a as ih => rw [textOfArms, ih, List.map_cons, String.join_cons]

theorem text_call (style : Style) (f : Name) (l r : Nat) (args : List Expr) :
    (call f l args r).text style =
      f.text ++ parenthesized (("," ++ " ").intercalate (args.map (text style))) := by
  rw [text, textsOfList_eq]
  rfl

theorem text_case (style : Style) (p q : Nat) (key : Option Expr) (first : Arm)
    (others : List Arm) (otherwise : Option Otherwise) :
    (case p key first others otherwise q).text style =
      style.keyword .CASE ++ key.elim "" (fun k => " " ++ k.text style) ++
        (String.join ((first :: others).map (textOfArm style)) ++
          otherwise.elim "" (fun o => " " ++ style.keyword .ELSE ++ " " ++ o.result.text style) ++
          (" " ++ style.keyword .END)) := by
  rw [List.map_cons, String.join_cons, ← textOfArms_eq]
  rcases key with - | k <;> rcases otherwise with - | ⟨o, result⟩ <;>
    simp only [text, Option.elim_none, Option.elim_some, String.append_assoc, String.append_empty]

theorem mergeSigns_inParensIf (needed : Bool) (e : Expr) :
    (e.inParensIf needed).mergeSigns = e.mergeSigns.inParensIf needed := by
  cases needed <;> rfl

theorem written_unary (p : Nat) (op : UnaryOp) (x : Expr) :
    (unary p op x).written = (unary p op (x.written.inParensIf x.isBinary)).mergeSign := by
  rw [written, guarded_unary, mergeSigns_unary, mergeSigns_inParensIf]
  rfl

theorem written_binary (x y : Expr) (p : Nat) (op : BinaryOp) :
    (binary x p op y).written =
      binary (x.written.inParensIf (x.isLooserThan op)) p op
        (y.written.inParensIf (y.isNotTighterThan op)) := by
  rw [written, guarded_binary]
  show binary (mergeSigns _) p op (mergeSigns _) = _
  rw [mergeSigns_inParensIf, mergeSigns_inParensIf]
  rfl

theorem written_isNull (x : Expr) (p q : Nat) :
    (isNull x p q).written = isNull (x.written.inParensIf x.isBinary) p q := by
  rw [written, guarded_isNull]
  show isNull (mergeSigns _) p q = _
  rw [mergeSigns_inParensIf]
  rfl

/-! ### What a text starts with -/

/-- The text does not start with a blank, nor with a minus and a blank. -/
def Leads (text : List Char) : Prop :=
  ∃ c cs, text = c :: cs ∧ isBlank c = false ∧
    (c = '-' → ∃ d ds, cs = d :: ds ∧ isBlank d = false)

theorem Leads.append {text : List Char} (h : Leads text) (others : List Char) :
    Leads (text ++ others) := by
  obtain ⟨c, cs, rfl, hc, hdash⟩ := h
  refine ⟨c, cs ++ others, rfl, hc, fun hminus => ?_⟩
  obtain ⟨d, ds, rfl, hd⟩ := hdash hminus
  exact ⟨d, ds ++ others, rfl, hd⟩

theorem leads_of_ne_minus {c : Char} (cs : List Char) (hc : isBlank c = false) (hminus : c ≠ '-') :
    Leads (c :: cs) := ⟨c, cs, rfl, hc, fun h => absurd h hminus⟩

theorem leads_of_isLetter {c : Char} (cs : List Char) (hc : isLetter c) : Leads (c :: cs) :=
  leads_of_ne_minus cs (isBlank_of_isLetter hc) (by rintro rfl; cases hc)

theorem Leads.parenthesizedIf {text : String} (h : Leads text.toList) (needed : Bool) :
    Leads (parenthesizedIf needed text).toList := by
  cases needed with
  | false => exact h
  | true =>
    simp only [SqlFormatter.parenthesizedIf, parenthesized, if_true, String.toList_append,
      List.append_assoc]
    exact leads_of_ne_minus _ rfl (by decide)

/-- A name starts with a letter. -/
theorem name_eq_cons {name : String} (h : Standalone .ident name.toList) :
    ∃ c cs, name.toList = c :: cs ∧ isLetter c := by
  generalize hkind : Kind.ident = kind at h
  generalize name.toList = text at h
  cases h with
  | word hc hcs => exact ⟨_, _, rfl, hc⟩
  | @number _ _ _ part => cases part <;> cases hkind
  | _ => cases hkind

/-- A literal that is a number starts with a digit, or with a minus and a digit. -/
theorem number_eq_cons {kind : LiteralKind} {text : List Char} (hkind : kind ≠ .string)
    (h : Standalone kind.kind text) :
    ∃ sign d ds part, text = sign ++ d :: ds ∧ (sign = [] ∨ sign = ['-']) ∧ d.isDigit ∧
      readNumber .whole (d :: ds) = ⟨d :: ds, [], .ok part⟩ ∧ part.kind = kind.kind := by
  refine h.number_eq ?_
  cases kind with
  | integer => exact Or.inl rfl
  | real => exact Or.inr rfl
  | string => exact absurd rfl hkind

/-- A text between quotation marks starts with one. -/
theorem string_eq_cons {text : List Char} (h : Standalone .string text) :
    ∃ cs, text = singleQuote :: cs := by
  generalize hkind : Kind.string = kind at h
  cases h with
  | quoted => exact ⟨_, rfl⟩
  | @number _ _ _ part => cases part <;> cases hkind
  | @word c cs =>
    rcases wordKind_cases (c :: cs) with hword | ⟨k, hword⟩ <;> cases hkind.trans hword
  | _ => cases hkind

theorem leads_literal {kind : LiteralKind} {text : List Char} (h : Standalone kind.kind text) :
    Leads text := by
  by_cases hkind : kind = .string
  · subst hkind
    obtain ⟨cs, rfl⟩ := string_eq_cons h
    exact leads_of_ne_minus cs rfl (by decide)
  · obtain ⟨sign, d, ds, part, rfl, hsign, hd, -⟩ := number_eq_cons hkind h
    obtain ⟨-, hblank, hminus⟩ := of_isDigit hd
    rcases hsign with rfl | rfl
    · exact leads_of_ne_minus ds hblank hminus
    · exact ⟨'-', d :: ds, rfl, rfl, fun _ => ⟨d, ds, rfl, hblank⟩⟩

theorem Legible.name {n : Name} {e : Expr} (h : e.Legible) (hn : Leaf.ofName n ∈ e.leaves) :
    Standalone .ident n.text.toList := h _ hn rfl

theorem Legible.literal {p : Nat} {k : LiteralKind} {text : String}
    (h : (literal p k text).Legible) : Standalone k.kind text.toList :=
  h ⟨some p, ⟨k.kind, text⟩⟩ (List.mem_singleton_self _) (by cases k <;> rfl)

/-- The expressions that start with a word. -/
def startsWithWord : Expr → Bool
  | column .. | call .. | case .. => true
  | _ => false

theorem text_eq_cons (style : Style) {e : Expr} (h : e.Legible) (hword : e.startsWithWord) :
    ∃ c cs, (e.text style).toList = c :: cs ∧ isLetter c := by
  cases e with
  | column q n =>
    cases q with
    | none => exact name_eq_cons (h.name (n := n) (by simp [leaves]))
    | some q =>
      obtain ⟨c, cs, htext, hc⟩ := name_eq_cons (h.name (n := q) (by simp [leaves]))
      simp only [text, String.toList_append, htext]
      exact ⟨c, _, rfl, hc⟩
  | call f l args r =>
    obtain ⟨c, cs, htext, hc⟩ := name_eq_cons (h.name (n := f) (by simp [leaves]))
    simp only [text_call, String.toList_append, htext]
    exact ⟨c, _, rfl, hc⟩
  | case p key first others otherwise q =>
    obtain ⟨c, cs, htext, hc, -⟩ := keyword_is_word style .CASE
    simp only [text_case, String.toList_append, htext]
    exact ⟨c, _, rfl, hc⟩
  | _ => cases hword

theorem leads_text (style : Style) {e : Expr} (h : e.Legible) : Leads (e.text style).toList := by
  induction e using childInduction with
  | step e ih =>
    have ih : ∀ c ∈ e.children, Leads (c.text style).toList := fun c hc => ih c hc (h.child hc)
    cases e with
    | column | call | case =>
      obtain ⟨c, cs, htext, hc⟩ := text_eq_cons style h rfl
      rw [htext]
      exact leads_of_isLetter cs hc
    | literal p k text => exact leads_literal h.literal
    | wildcard p =>
      rw [text]
      exact leads_of_ne_minus [] rfl (by decide)
    | unary p op x =>
      rw [text, String.toList_append]
      cases op with
      | plus => exact leads_of_ne_minus _ rfl (by decide)
      | neg =>
        obtain ⟨c, cs, htext, hc, -⟩ :=
          (ih x (by simp [children])).parenthesizedIf x.isBinary
        rw [htext]
        exact ⟨'-', c :: cs, rfl, rfl, fun _ => ⟨c, cs, rfl, hc⟩⟩
    | binary x p op y =>
      simp only [text, String.toList_append, List.append_assoc]
      exact ((ih x (by simp [children])).parenthesizedIf _).append _
    | isNull x p q =>
      simp only [text, String.toList_append, List.append_assoc]
      exact ((ih x (by simp [children])).parenthesizedIf _).append _
    | paren l x r =>
      rw [text, parenthesized, String.toList_append, String.toList_append]
      exact leads_of_ne_minus _ rfl (by decide)

/-- Of the operands that no parentheses are added to, only numbers without a sign start with a
digit. -/
theorem startsWithDigit_text (style : Style) {e : Expr} (h : e.Legible) (hoperand : e.isOperand)
    (hunsigned : e.unsigned? = none) : startsWithDigit (e.text style).toList = false := by
  cases e with
  | binary | isNull => cases hoperand
  | column | call | case =>
    obtain ⟨c, cs, htext, hc⟩ := text_eq_cons style h rfl
    rw [htext, Bool.eq_false_iff]
    intro hd
    have hd : c.isDigit := by simpa [startsWithDigit] using hd
    rw [(of_isDigit hd).1] at hc
    cases hc
  | literal p k text =>
    by_cases hkind : k = .string
    · subst hkind
      obtain ⟨cs, htext⟩ := string_eq_cons h.literal
      rw [Expr.text, htext]
      rfl
    · obtain ⟨sign, d, ds, part, htext, hsign, hd, -⟩ := number_eq_cons hkind h.literal
      rw [unsigned?.eq_2 _ _ _ hkind] at hunsigned
      rw [Expr.text, htext]
      rcases hsign with rfl | rfl
      · rw [htext, if_neg (by simpa using (of_isDigit hd).2.2)] at hunsigned
        cases hunsigned
      · rfl
  | wildcard p =>
    rw [text]
    rfl
  | paren l x r =>
    rw [text, parenthesized, String.toList_append, String.toList_append]
    rfl
  | unary p op x =>
    rw [text, String.toList_append]
    cases op <;> rfl

/-! ### What a text is read as -/

theorem yield_paren (l r : Nat) (e : Expr) :
    (paren l e r).yield = .fixed .leftParen :: (e.yield ++ [.fixed .rightParen]) := by
  rw [yield, leaves, List.map_cons, List.map_append]
  rfl

theorem yield_call (f : Name) (l r : Nat) (args : List Expr) :
    (call f l args r).yield =
      [⟨.ident, f.text⟩] ++ ([.fixed .leftParen] ++
        ((Leaf.list leaves args).map Leaf.word ++ [.fixed .rightParen])) := by
  rw [yield, leaves_call, List.map_cons, List.map_cons, List.map_append]
  rfl

theorem prints_parenthesizedIf {text : String} {e : Expr} (h : Prints text e.yield)
    (needed : Bool) :
    Prints (SqlFormatter.parenthesizedIf needed text) (e.inParensIf needed).yield := by
  cases needed with
  | false => exact h
  | true =>
    show Prints (parenthesized text) (paren nowhere e nowhere).yield
    rw [yield_paren]
    exact h.parenthesized

/-- A minus is read as such before a text that starts neither with a digit nor with a minus and a
blank. -/
theorem scans_minus {k : Kind} {text : List Char} (rest : List Char) (hleads : Leads text)
    (hdigit : startsWithDigit text = false) :
    Scans k ('-' :: (text ++ rest)) [.fixed .minus] .minus (text ++ rest) := by
  obtain ⟨c, cs, rfl, hc, hminus⟩ := hleads
  show Scans k _ [.of .minus (String.ofList ['-'])] _ _
  refine scans_of_read rfl ?_ nofun nofun
  show Lexeme.dash false k (c :: (cs ++ rest)) = _
  -- The minus might start a comment, or be the sign of a number.
  have hcomment : ¬(c = '-' ∧ (cs ++ rest).head?.all isBlank) := by
    rintro ⟨rfl, hblank⟩
    obtain ⟨d, ds, rfl, hd⟩ := hminus rfl
    have hblank : isBlank d := hblank
    rw [hd] at hblank
    cases hblank
  have hnumber : ¬(c.isDigit ∧ k.endsOperand = false) := fun hnumber => by
    have hd : startsWithDigit (c :: cs) := hnumber.1
    rw [hdigit] at hd
    cases hd
  rw [Lexeme.dash, if_neg hcomment, if_neg hnumber]
  rfl

/-- A number that gets a sign is a number. -/
theorem standalone_negated {k : LiteralKind} {text : String} (hkind : k ≠ .string)
    (hminus : text.toList.head? ≠ some '-') (h : Standalone k.kind text.toList) :
    Standalone k.kind ("-" ++ text).toList := by
  obtain ⟨sign, d, ds, part, htext, hsign, hd, hread, hpart⟩ := number_eq_cons hkind h
  rcases hsign with rfl | rfl
  · have hsign : ['-'] = [] ∨ ['-'] = ['-'] := Or.inr rfl
    rw [String.toList_append, htext, ← hpart]
    exact .number hsign hd hread
  · rw [htext] at hminus
    exact absurd rfl hminus

theorem prints_unary (style : Style) {p : Nat} {op : UnaryOp} {x : Expr}
    (hlegible : x.Legible) (hnull : x.isNullTest = false)
    (hx : Prints (x.text style) x.written.yield) :
    Prints ((unary p op x).text style) (unary p op x).written.yield := by
  have hoperand := prints_parenthesizedIf hx x.isBinary
  have hleads := (leads_text style hlegible).parenthesizedIf x.isBinary
  have hunsigned : (x.written.inParensIf x.isBinary).unsigned? = x.unsigned? := by
    rw [written, ← mergeSigns_inParensIf, unsigned?_mergeSigns, unsigned?_inParensIf]
  intro k rest hk hrest
  rw [written_unary, text, String.toList_append]
  cases op with
  | plus =>
    obtain ⟨k', hscans⟩ := hoperand (k := .plus) rfl hrest
    exact ⟨k', (scans_symbol (by decide) _).trans hscans⟩
  | neg =>
    cases hx : x.unsigned? with
    | some number =>
      -- The minus is scanned as the sign of the number.
      obtain ⟨kind, text⟩ := number
      obtain ⟨q, rfl, hkind, hminus⟩ := unsigned?_eq_some hx
      have hnegated := standalone_negated hkind hminus hlegible.literal
      have hscans := scans_literal hnegated hk hrest
      rw [String.toList_append] at hscans
      rw [mergeSign_of_unsigned (hunsigned.trans hx), Expr.text]
      exact ⟨kind.kind, hscans⟩
    | none =>
      -- No digit stands behind the minus, so it is a token.
      have hdigit : startsWithDigit
          (SqlFormatter.parenthesizedIf x.isBinary (x.text style)).toList = false := by
        cases hbinary : x.isBinary with
        | true =>
          show startsWithDigit (parenthesized _).toList = false
          rw [parenthesized, String.toList_append, String.toList_append]
          rfl
        | false => exact startsWithDigit_text style hlegible (isOperand_of_not hbinary hnull) hx
      obtain ⟨k', hscans⟩ := hoperand (k := .minus) rfl hrest
      rw [mergeSign_of_not_unsigned (hunsigned.trans hx)]
      exact ⟨k', (scans_minus rest hleads hdigit).trans hscans⟩

theorem prints_column {style : Style} {q : Option Name} {n : Name}
    (h : (column q n).Legible) : Prints ((column q n).text style) (column q n).yield := by
  intro k rest hk hrest
  have hname := h.name (n := n) (by cases q <;> simp [leaves])
  cases q with
  | none =>
    rw [text]
    exact ⟨_, scans_name hname hrest.endsWord⟩
  | some q =>
    have hqualifier := h.name (n := q) (by simp [leaves])
    have hdot : EndsWord ('.' :: (n.text.toList ++ rest)) := by
      intro d hd
      cases hd
      rfl
    simp only [text, String.toList_append, List.append_assoc]
    exact ⟨_, (scans_name hqualifier hdot).trans
      ((scans_symbol (by decide) _).trans (scans_name hname hrest.endsWord))⟩

theorem prints_call {style : Style} {f : Name} {l r : Nat} {args : List Expr}
    (hlegible : (call f l args r).Legible)
    (h : ∀ a ∈ args, Prints (a.text style) a.written.yield) :
    Prints ((call f l args r).text style) (call f l args r).written.yield := by
  have hname := hlegible.name (n := f) (by simp [leaves])
  have hparen : ∀ cs, EndsWord ('(' :: cs) := by
    intro cs d hd
    cases hd
    rfl
  rw [written_of_not_operator rfl, mapChildren, yield_call, Leaf.list_map]
  intro k rest hk hrest
  simp only [text_call, parenthesized, String.toList_append, List.append_assoc]
  refine ⟨.rightParen, (scans_name hname (hparen _)).trans ((scans_symbol (by decide) _).trans ?_)⟩
  cases args with
  | nil => exact scans_symbol (by decide) rest
  | cons a as =>
    have hlist : Prints (("," ++ " ").intercalate ((a :: as).map (text style)))
        ((Leaf.list (fun a => a.written.leaves) (a :: as)).map Leaf.word) :=
      prints_list isGap_blank h
    obtain ⟨k', hscans⟩ := hlist (k := .leftParen) rfl (delimited_cons (d := ')') (by decide) rest)
    exact hscans.trans (scans_symbol (by decide) rest)

theorem continues_arm (style : Style) {a : Arm}
    (hcond : Prints (a.cond.text style) a.cond.written.yield)
    (hresult : Prints (a.result.text style) a.result.written.yield) :
    Continues (textOfArm style a) ((a.map written).leaves.map Leaf.word) := by
  obtain ⟨p, cond, q, result⟩ := a
  have hcontinues := (hcond.after_keyword style .WHEN rfl).append
    (hresult.after_keyword style .THEN rfl)
  rw [textOfArm, Arm.leaves, List.map_cons, List.map_append, List.map_cons]
  simp only [String.append_assoc] at hcontinues ⊢
  exact hcontinues

theorem prints_case {style : Style} {p q : Nat} {key : Option Expr} {first : Arm}
    {others : List Arm} {otherwise : Option Otherwise}
    (hkey : ∀ k ∈ key, Prints (k.text style) k.written.yield)
    (harms : ∀ a ∈ first :: others, Prints (a.cond.text style) a.cond.written.yield ∧
      Prints (a.result.text style) a.result.written.yield)
    (hlast : ∀ o ∈ otherwise, Prints (o.result.text style) o.result.written.yield) :
    Prints ((case p key first others otherwise q).text style)
      (case p key first others otherwise q).written.yield := by
  -- The text is CASE, perhaps a key, and parts that start with a blank and a keyword.
  have hjoin := continues_join fun a ha => continues_arm style (harms a ha).1 (harms a ha).2
  have helse : Continues
      (otherwise.elim "" fun o => " " ++ style.keyword .ELSE ++ " " ++ o.result.text style)
      (((otherwise.map (Otherwise.map written)).elim [] Otherwise.leaves).map Leaf.word) := by
    cases otherwise with
    | none => exact Continues.nil
    | some o => exact (hlast o rfl).after_keyword style .ELSE rfl
  have hparts := (hjoin.append helse).append (continues_keyword style .END)
  have hwords : (case p key first others otherwise q).written.yield =
      .fixed (.keyword .CASE) :: (key.elim [] (fun k => k.written.yield) ++
        ((first :: others).flatMap (fun a => (a.map written).leaves.map Leaf.word) ++
          ((otherwise.map (Otherwise.map written)).elim [] Otherwise.leaves).map Leaf.word ++
          [.fixed (.keyword .END)])) := by
    rw [written_of_not_operator rfl, mapChildren, yield, leaves_case, ← List.map_cons,
      List.flatMap_map]
    simp only [List.map_cons, List.map_append, List.map_flatMap, List.append_assoc]
    cases key <;> rfl
  intro k rest hk hrest
  rw [text_case, hwords]
  -- The parts delimit CASE, or the key, whichever they stand behind.
  obtain ⟨hmid, hscans⟩ := hparts hrest
  simp only [String.toList_append, List.append_assoc] at hmid hscans ⊢
  cases key with
  | none =>
    obtain ⟨k', hscans⟩ := hscans (.keyword .CASE)
    exact ⟨k', (scans_keyword style .CASE hmid.endsWord).trans hscans⟩
  | some key =>
    have hprints := hkey key rfl
    obtain ⟨k', hfirst⟩ := hprints (k := .keyword .CASE) rfl hmid
    obtain ⟨k'', hsecond⟩ := hscans k'
    have hkey := Scans.gap (c := ' ') rfl (hfirst.trans hsecond)
    have hcase := (scans_keyword (k := k) style .CASE (endsWord_blank _)).trans hkey
    simp only [Option.elim_some, String.toList_append, List.append_assoc]
    exact ⟨k'', hcase⟩

/-- An expression is read from its text as it is written. -/
theorem prints_text (style : Style) {e : Expr} (hlegible : e.Legible)
    (hnull : e.NullTestsUnsigned) : Prints (e.text style) e.written.yield := by
  induction e using childInduction with
  | step e ih =>
    obtain ⟨hroot, hchildren⟩ := nullTestsUnsigned_iff.1 hnull
    have ih : ∀ c ∈ e.children, Prints (c.text style) c.written.yield := fun c hc =>
      ih c hc (hlegible.child hc) (hchildren c hc)
    cases e with
    | column q n => exact prints_column hlegible
    | literal p k text =>
      intro k' rest hk hrest
      rw [Expr.text]
      exact ⟨_, scans_literal hlegible.literal hk hrest⟩
    | wildcard p =>
      intro k rest hk hrest
      rw [text]
      exact ⟨_, scans_symbol (by decide) rest⟩
    | unary p op x =>
      exact prints_unary style (hlegible.child (by simp [children])) hroot
        (ih x (by simp [children]))
    | binary x p op y =>
      have hx := prints_parenthesizedIf (ih x (by simp [children])) (x.isLooserThan op)
      have hy := prints_parenthesizedIf (ih y (by simp [children])) (y.isNotTighterThan op)
      have hprints :=
        hx.append (hy.after_operator style op isGap_blank (delimited_cons (by decide) []))
      rw [written_binary, yield, leaves, List.map_append, List.map_cons]
      simp only [text, String.append_assoc] at hprints ⊢
      exact hprints
    | call f l args r => exact prints_call hlegible ih
    | case p key first others otherwise q =>
      obtain ⟨hkey, harms, hlast⟩ := forall_children_case.1 ih
      exact prints_case hkey harms hlast
    | isNull x p q =>
      have hx := prints_parenthesizedIf (ih x (by simp [children])) x.isBinary
      have htest := (continues_keyword style .IS).append (continues_keyword style .NULL)
      have hprints := hx.append htest
      rw [written_isNull, yield, leaves, List.map_append]
      simp only [text, String.append_assoc] at hprints ⊢
      exact hprints
    | paren l x r =>
      have hprints := (ih x (by simp [children])).parenthesized
      rw [written_of_not_operator rfl, mapChildren, yield_paren, text]
      exact hprints

end Expr

end SqlFormatter
