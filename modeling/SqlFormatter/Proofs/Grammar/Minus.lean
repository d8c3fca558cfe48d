import SqlFormatter.Proofs.Grammar.Comments
import SqlFormatter.Proofs.Grammar.Excerpt
import SqlFormatter.Proofs.Token.Minus

/-!
# SqlFormatter.Proofs.Grammar.Minus

What a minus is to the scanner, and what it is to the grammar. The scanner takes a minus in front of
a digit for a sign unless an operand has ended before it; for that it looks at one token. In a tree
a subtraction has its left operand there, and no expression that starts with a sign stands behind a
token that an operand ends with (`Statement.introduced_of_mem_nodes`). So the two agree, and
`parseText_minus` is the main result:

* between a minus that subtracts and a number without a sign behind it nothing has to stand;
* a minus with a digit right behind it subtracts.
-/

namespace SqlFormatter

/-! ### Subtractions among tokens -/

namespace Expr

/-- Whether the first token of the expression is a number without a sign. -/
def startsUnsigned (x : Expr) : Bool :=
  x.yield.head?.any fun w =>
    (w.kind == .integer || w.kind == .real) && w.text.toList.head? != some '-'

/-- Whether the last token of the expression is a star. -/
def endsInStar (x : Expr) : Bool := x.yield.getLast?.any (·.kind == .star)

end Expr

section Spells

variable {ts : List Token} {ls : List Leaf}

theorem Spells.exists_leaf (h : Spells ts ls) : ∀ t ∈ ts, ∃ l ∈ ls, l.Marks t := by
  induction h with
  | nil => exact List.forall_mem_nil _
  | cons hmarks _ ih =>
    refine List.forall_mem_cons.2 ⟨⟨_, List.mem_cons_self, hmarks⟩, fun t ht => ?_⟩
    obtain ⟨l, hl, hmarks⟩ := ih t ht
    exact ⟨l, List.mem_cons_of_mem _ hl, hmarks⟩

/-- The last token of an operand. -/
theorem Spells.endsOperand_of_expr {x : Expr} (h : Spells ts x.leaves)
    (hstar : x.endsInStar = false) : ∃ t ∈ ts.getLast?, t.kind.endsOperand := by
  obtain ⟨l, hl, hkind⟩ := x.endsOperand_leaves
  have hwords := congrArg List.getLast? h.map_word
  rw [List.getLast?_map, List.getLast?_map, Option.mem_def.1 hl] at hwords
  obtain ⟨t, ht, hword⟩ := Option.map_eq_some_iff.1 hwords
  refine ⟨t, ht, ?_⟩
  rw [← t.kind_word, hword]
  refine hkind.resolve_right fun hlast => ?_
  rw [Expr.endsInStar, Expr.yield, List.getLast?_map, Option.mem_def.1 hl] at hstar
  simp [hlast] at hstar

/-- The first token of an operand that starts with a number without a sign. -/
theorem Spells.unsigned_of_expr {x : Expr} (h : Spells ts x.leaves) (hnumber : x.startsUnsigned) :
    ∃ t us, ts = t :: us ∧ t.pos = x.pos ∧ (t.kind = .integer ∨ t.kind = .real) ∧
      t.text.toList.head? ≠ some '-' := by
  obtain ⟨t, us, rfl, hpos⟩ := h.first_of_expr
  have hword : x.yield.head? = some t.word := (congrArg List.head? h.map_word).symm
  simp only [Expr.startsUnsigned, hword, Option.any_some, Bool.and_eq_true, Bool.or_eq_true,
    beq_iff_eq, bne_iff_ne, Token.kind_word] at hnumber
  obtain ⟨hkind, hsign⟩ := hnumber
  refine ⟨t, us, rfl, hpos, hkind, ?_⟩
  have hkeeps : t.kind.keepsText := by rcases hkind with hkind | hkind <;> rw [hkind] <;> rfl
  rwa [Token.word, Word.of, if_pos hkeeps] at hsign

end Spells

/-- What stands in front of a token stands at smaller positions. -/
theorem filter_pos_lt {us vs : List Token} {t : Token}
    (h : (us ++ t :: vs).Pairwise fun t u => t.pos < u.pos) :
    (us ++ t :: vs).filter (fun u => decide (u.pos < t.pos)) = us := by
  obtain ⟨-, hvs, hus⟩ := List.pairwise_append.1 h
  have hfront : us.filter (fun u => decide (u.pos < t.pos)) = us :=
    List.filter_eq_self.2 fun u hu => decide_eq_true (hus u hu t List.mem_cons_self)
  have hbehind : (t :: vs).filter (fun u => decide (u.pos < t.pos)) = [] :=
    List.filter_eq_nil_iff.2 (List.forall_mem_cons.2 ⟨by simp, fun u hu => by
      have hlt := List.rel_of_pairwise_cons hvs hu
      simp only [decide_eq_true_eq]
      omega⟩)
  rw [List.filter_append, hfront, hbehind, List.append_nil]

namespace Statement.ReadFrom

variable {s : Statement} {tokens front behind : List Token} {t : Token}

/-- A subtraction of a number without a sign among the tokens of a statement. -/
theorem exists_sub {x y : Expr} {p : Nat} (h : s.ReadFrom tokens)
    (hnode : .binary x p .sub y ∈ s.exprs.flatMap Expr.nodes) (hy : y.startsUnsigned)
    (hx : x.endsInStar = false) :
    ∃ front t u behind, tokens.filter Token.isProper = front ++ t :: u :: behind ∧
      (∃ v ∈ front.getLast?, v.kind.endsOperand) ∧ t.kind = .minus ∧ t.pos = p ∧ u.pos = y.pos ∧
      (u.kind = .integer ∨ u.kind = .real) ∧ u.text.toList.head? ≠ some '-' := by
  obtain ⟨rest, ⟨read, hread, hspells⟩, -⟩ := h.reads
  obtain ⟨l, -, hinfix⟩ := s.introduced_of_mem_nodes hnode
  obtain ⟨us, ⟨before, after, rfl⟩, hus⟩ :=
    hspells.stretch ((List.suffix_cons l _).isInfix.trans hinfix)
  obtain ⟨xs, ys, rfl, hxs, hys⟩ := Spells.split hus
  obtain ⟨t, zs, hminus, hzs, rfl⟩ := List.forall₂_cons_right_iff.1 hys
  obtain ⟨u, zs, rfl, hu⟩ := Spells.unsigned_of_expr hzs hy
  obtain ⟨v, hv, hends⟩ := hxs.endsOperand_of_expr hx
  refine ⟨before ++ xs, t, u, zs ++ (after ++ rest), by simpa using hread,
    ⟨v, List.mem_getLast?_append_of_mem_getLast? hv, hends⟩, ?_, (hminus.2 p rfl).symm, hu⟩
  rw [← t.kind_word, hminus.1]
  rfl

/-- Behind a token that an operand ends with no expression starts with a sign. -/
theorem unary_not_mem_nodes (h : s.ReadFrom tokens)
    (hordered : (tokens.filter Token.isProper).Pairwise fun t u => t.pos < u.pos)
    (hproper : tokens.filter Token.isProper = front ++ t :: behind)
    (hoperand : ∃ v ∈ front.getLast?, v.kind.endsOperand) (op : UnaryOp) (x : Expr) :
    .unary t.pos op x ∉ s.exprs.flatMap Expr.nodes := by
  intro hnode
  obtain ⟨rest, ⟨read, hread, hspells⟩, -⟩ := h.reads
  obtain ⟨l, hl, hinfix⟩ := s.introduced_of_mem_nodes hnode
  obtain ⟨us, ⟨before, after, rfl⟩, hus⟩ := hspells.stretch hinfix
  obtain ⟨w, vs, hw, hvs, rfl⟩ := List.forall₂_cons_right_iff.1 hus
  obtain ⟨t', ws, ht', -, rfl⟩ := List.forall₂_cons_right_iff.1 hvs
  have hpos : t.pos = t'.pos := ht'.2 t.pos rfl
  have hproper' : tokens.filter Token.isProper =
      (before ++ [w]) ++ t' :: (ws ++ (after ++ rest)) := by simpa using hread
  -- Positions tell tokens apart, so `w` is what stands in front of `t`.
  have hfront : front = before ++ [w] := by
    have hleft := filter_pos_lt (hproper ▸ hordered)
    have hright := filter_pos_lt (hproper' ▸ hordered)
    rw [← hproper, hpos] at hleft
    rw [← hproper'] at hright
    exact hleft.symm.trans hright
  obtain ⟨v, hv, hends⟩ := hoperand
  rw [hfront, List.getLast?_concat] at hv
  cases hv
  rw [← w.kind_word, hw.1, hl] at hends
  cases hends

/-- Behind a token that an operand ends with a minus subtracts. -/
theorem exists_sub_of_minus (h : s.ReadFrom tokens)
    (hordered : (tokens.filter Token.isProper).Pairwise fun t u => t.pos < u.pos)
    (hproper : tokens.filter Token.isProper = front ++ t :: behind)
    (hoperand : ∃ v ∈ front.getLast?, v.kind.endsOperand) (ht : t.kind = .minus) :
    ∃ x y, .binary x t.pos .sub y ∈ s.exprs.flatMap Expr.nodes := by
  have hunary := h.unary_not_mem_nodes hordered hproper hoperand
  obtain ⟨rest, ⟨read, hread, hspells⟩, hrest⟩ := h.reads
  have hmem : t ∈ read := by
    have hall : t ∈ read ++ rest := by
      rw [← hread, hproper]
      simp
    refine (List.mem_append.1 hall).resolve_right fun hlast => ?_
    -- Behind the statement there is a semicolon at most.
    have hword : t.word ∈ rest.map Token.word := List.mem_map_of_mem hlast
    rcases hrest with hrest | hrest <;> rw [hrest] at hword
    · cases hword
    · have hkind := congrArg Word.kind (List.mem_singleton.1 hword)
      cases ht.symm.trans hkind
  obtain ⟨l, hl, hmarks⟩ := hspells.exists_leaf t hmem
  have hkind : l.word.kind = .minus := by rw [← hmarks.1, t.kind_word, ht]
  rcases s.ofNodes_of_mem_leaves l hl with hplain | ⟨e, he, hoperator⟩
  · cases hplain with
    | literal p k text => cases k <;> cases hkind
    | _ => cases hkind
  · cases e with
    | unary p op x =>
      cases hoperator
      obtain rfl := hmarks.2 p rfl
      exact absurd he (hunary op x)
    | binary x p op y =>
      cases hoperator
      obtain rfl := hmarks.2 p rfl
      cases op with
      | sub => exact ⟨x, y, he⟩
      | _ => cases hkind
    | _ => cases hoperator

end Statement.ReadFrom

/-! ### Comments that are left out -/

/-- The comments that do not stand between two positions. -/
def Statement.commentsOutside (s : Statement) (p q : Nat) : List Comment :=
  (s.comments.flatMap CommentGroup.toList).filter fun c => !decide (p < c.pos ∧ c.pos < q)

section Comments

variable {us cs vs : List Token} {t u : Token}

theorem forall_mem_comments {motive : Nat → Prop} {ts : List Token} (h : ∀ t ∈ ts, motive t.pos) :
    ∀ c ∈ ts.filterMap Token.comment?, motive c.pos := by
  intro c hc
  obtain ⟨t, ht, hcomment⟩ := List.mem_filterMap.1 hc
  rw [(Token.comment?_eq_some hcomment).2.1]
  exact h t ht

/-- The comments outside of two tokens are those in front of the first and behind the second. -/
theorem filter_comments_outside
    (h : (us ++ t :: (cs ++ u :: vs)).Pairwise fun t u => t.pos < u.pos)
    (ht : t.comment? = none) (hu : u.comment? = none) :
    ((us ++ t :: (cs ++ u :: vs)).filterMap Token.comment?).filter
        (fun c => !decide (t.pos < c.pos ∧ c.pos < u.pos)) =
      us.filterMap Token.comment? ++ vs.filterMap Token.comment? := by
  obtain ⟨-, hothers, hus⟩ := List.pairwise_append.1 h
  obtain ⟨hlater, hothers⟩ := List.pairwise_cons.1 hothers
  obtain ⟨-, hvs, hcs⟩ := List.pairwise_append.1 hothers
  have hfront : ∀ c ∈ us.filterMap Token.comment?, ¬(t.pos < c.pos ∧ c.pos < u.pos) :=
    forall_mem_comments (motive := fun q => ¬(t.pos < q ∧ q < u.pos)) fun v hv hinside =>
      Nat.lt_asymm (hus v hv t List.mem_cons_self) hinside.1
  have hbetween : ∀ c ∈ cs.filterMap Token.comment?, t.pos < c.pos ∧ c.pos < u.pos :=
    forall_mem_comments (motive := fun q => t.pos < q ∧ q < u.pos) fun v hv =>
      ⟨hlater v (List.mem_append_left _ hv), hcs v hv u List.mem_cons_self⟩
  have hbehind : ∀ c ∈ vs.filterMap Token.comment?, ¬(t.pos < c.pos ∧ c.pos < u.pos) :=
    forall_mem_comments (motive := fun q => ¬(t.pos < q ∧ q < u.pos)) fun v hv hinside =>
      Nat.lt_asymm (List.rel_of_pairwise_cons hvs hv) hinside.2
  rw [List.filterMap_append, List.filterMap_cons_none ht, List.filterMap_append,
    List.filterMap_cons_none hu, List.filter_append, List.filter_append,
    List.filter_eq_self.2 fun c hc => by rw [decide_eq_false (hfront c hc), Bool.not_false],
    List.filter_eq_nil_iff.2 fun c hc => by simp [hbetween c hc],
    List.filter_eq_self.2 fun c hc => by rw [decide_eq_false (hbehind c hc), Bool.not_false],
    List.nil_append]

end Comments

/-! ### The text of a statement -/

theorem map_word_filter_isProper_congr {ts us : List Token}
    (h : ts.map Token.word = us.map Token.word) :
    (ts.filter Token.isProper).map Token.word = (us.filter Token.isProper).map Token.word := by
  have hproper : ∀ ts : List Token, (ts.filter Token.isProper).map Token.word =
      (ts.map Token.word).filter fun w => w.kind != .comment && w.kind != .endOfInput := by
    intro ts
    rw [List.filter_map]
    rfl
  rw [hproper, hproper, h]

/-- A text with the tokens of a statement, but for comments between two of them, is read as the
statement without these comments. -/
theorem Statement.ReadFrom.parse_close_up {s : Statement} {us cs vs tokens : List Token}
    {t u : Token} {file : File} {text : String} {scanner : Scanner}
    (h : s.ReadFrom (us ++ t :: (cs ++ u :: vs)))
    (hordered : (us ++ t :: (cs ++ u :: vs)).Pairwise fun t u => t.pos < u.pos)
    (hcs : cs.filter Token.isProper = []) (ht : t.comment? = none) (hu : u.comment? = none)
    (hscanner : Scanner.ofText file text = .ok scanner) (htokens : scanner.tokenize.1 = .ok tokens)
    (hwords : tokens.map Token.word = (us ++ t :: u :: vs).map Token.word) :
    ∃ s' file', parseText file text = .ok (.ok s', file') ∧ s'.shape = s.shape ∧
      s'.commentTexts = (s.commentsOutside t.pos u.pos).map Comment.text := by
  have hproper : (us ++ t :: u :: vs).filter Token.isProper =
      (us ++ t :: (cs ++ u :: vs)).filter Token.isProper := by
    simp [List.filter_append, List.filter_cons, hcs]
  obtain ⟨s', file', hparse, hshape, hcomments⟩ := h.parse_again hscanner htokens
    ((map_word_filter_isProper_congr hwords).trans (congrArg _ hproper))
  refine ⟨s', file', hparse, hshape, ?_⟩
  have hkept : (us ++ t :: u :: vs).filterMap Token.comment? =
      us.filterMap Token.comment? ++ vs.filterMap Token.comment? := by
    rw [List.filterMap_append, List.filterMap_cons_none ht, List.filterMap_cons_none hu]
  rw [hcomments, Scanner.map_text_filterMap_comment?, hwords,
    ← Scanner.map_text_filterMap_comment?, hkept,
    Statement.commentsOutside, h.comments_eq, filter_comments_outside hordered ht hu]

/-- The text is accepted without what stands between the minus at `p` and the position `q`, and the
statement is the same but for positions and the comments that are left out. -/
def Statement.ClosesUp (s : Statement) (file : File) (text : String) (p q : Nat) : Prop :=
  ∃ before between after, text.toList = before ++ '-' :: (between ++ after) ∧
    p = file.base + byteLength before ∧ q = p + 1 + byteLength between ∧
    ∀ target : File, target.size = byteLength (before ++ '-' :: after) →
      ∃ s' target', parseText target (String.ofList (before ++ '-' :: after)) =
          .ok (.ok s', target') ∧
        s'.shape = s.shape ∧ s'.commentTexts = (s.commentsOutside p q).map Comment.text

/-- What stands in a text between a minus that subtracts and a number without a sign may be left
out. -/
theorem parseText_close_up {file file' : File} {text : String} {expired : Bool} {s : Statement}
    (h : parseText file text expired = .ok (.ok s, file')) {x y : Expr} {p : Nat}
    (hnode : .binary x p .sub y ∈ s.exprs.flatMap Expr.nodes) (hy : y.startsUnsigned)
    (hx : x.endsInStar = false) : s.ClosesUp file text p y.pos := by
  obtain ⟨scanner, tokens, hscanner, htokens, hread⟩ := readFrom_of_parseText h
  obtain ⟨rest, init, m, htext, rfl, hlexes⟩ := Scanner.exists_lexes hscanner htokens
  obtain ⟨front, t, u, behind, hproper, hoperand, ht, rfl, hupos, hkind, hsign⟩ :=
    hread.exists_sub hnode hy hx
  -- The tokens with the comments among them.
  have hinit : init.filter Token.isProper = front ++ t :: u :: behind := by
    rw [List.filter_append] at hproper
    simpa [Token.isProper, Token.endOfInput] using hproper
  obtain ⟨us, others, rfl, rfl, hothers, -⟩ := split_of_filter_eq hinit
  obtain ⟨cs, vs, rfl, hcs, -, -⟩ := List.filter_eq_cons_iff.1 hothers
  have hcs := List.filter_eq_nil_iff.2 hcs
  have hstandalone := Scanner.standalone_of_mem_tokenize htokens u (by simp)
    (by rcases hkind with hkind | hkind <;> rw [hkind] <;> rfl)
  obtain ⟨d, ds, hu, hd⟩ := hstandalone.digit_first hkind hsign
  obtain ⟨first, between, back, f, rfl, htpos, hupos', hclosed⟩ :=
    hlexes.close_up ht hoperand hcs hu hd
  refine ⟨leadingMark text ++ first, between, d :: back, ?_, ?_, ?_, fun target hsize => ?_⟩
  · rw [htext, List.append_assoc]
  · rw [htpos, byteLength_append, Nat.add_assoc]
  · rw [← hupos, hupos']
  rw [List.append_assoc] at hsize ⊢
  obtain ⟨scanner', g, q, hscanner', htokens'⟩ :=
    Scanner.exists_tokenize_of_lexes htext (by simp [byteOrderMark]) hclosed hsize
  have hordered := (Scanner.tiles_tokenize htokens).pairwise.imp And.left
  rw [List.append_assoc, List.cons_append, List.append_assoc, List.cons_append] at hread hordered
  rw [← hupos]
  refine hread.parse_close_up hordered hcs (if_neg (by simp [ht])) (if_neg ?_) hscanner'
    htokens' ?_
  · rcases hkind with hkind | hkind <;> simp [hkind]
  · -- The words do not tell where the tokens are.
    simp only [List.map_append, map_word_moved, List.map_cons, List.append_assoc, List.cons_append]
    rfl

/-- A minus with a digit right behind it subtracts. -/
theorem exists_sub_of_digit {file file' : File} {text : String} {expired : Bool} {s : Statement}
    (h : parseText file text expired = .ok (.ok s, file')) {scanner : Scanner} {tokens : List Token}
    (hscanner : Scanner.ofText file text expired = .ok scanner)
    (htokens : scanner.tokenize.1 = .ok tokens) {t : Token} (hmem : t ∈ tokens)
    (ht : t.kind = .minus) :
    ∃ before after, text.toList = before ++ '-' :: after ∧ t.pos = file.base + byteLength before ∧
      (startsWithDigit after → (∃ x y, .binary x t.pos .sub y ∈ s.exprs.flatMap Expr.nodes) ∧
        ∀ op x, .unary t.pos op x ∉ s.exprs.flatMap Expr.nodes) := by
  obtain ⟨scanner', tokens', hscanner', htokens', hread⟩ := readFrom_of_parseText h
  obtain rfl := Except.ok.inj (hscanner.symm.trans hscanner')
  obtain rfl := Except.ok.inj (htokens.symm.trans htokens')
  obtain ⟨rest, init, m, htext, rfl, hlexes⟩ := Scanner.exists_lexes hscanner htokens
  have hinit : t ∈ init := (List.mem_append.1 hmem).resolve_right fun hlast => by
    rw [List.mem_singleton.1 hlast] at ht
    cases ht
  obtain ⟨us, vs, rfl⟩ := List.append_of_mem hinit
  obtain ⟨front, after, rfl, htpos, hoperand⟩ := hlexes.exists_operand ht
  rw [List.append_nil] at hoperand
  have hordered := (Scanner.tiles_tokenize htokens).pairwise.imp And.left
  rw [List.append_assoc, List.cons_append] at hordered hread
  have hproper : ∀ vs, (us ++ t :: vs).filter Token.isProper =
      us.filter Token.isProper ++ t :: vs.filter Token.isProper := fun vs => by
    rw [List.filter_append, List.filter_cons_of_pos (by simp [Token.isProper, ht])]
  refine ⟨leadingMark text ++ front, after, ?_, ?_, fun hdigit => ⟨?_, ?_⟩⟩
  · rw [htext, List.append_assoc]
  · rw [htpos, byteLength_append, Nat.add_assoc]
  · exact hread.exists_sub_of_minus (hordered.filter _) (hproper _) (hoperand hdigit) ht
  · exact hread.unary_not_mem_nodes (hordered.filter _) (hproper _) (hoperand hdigit)

/-- The scanner and the grammar agree on what a minus is. Where a minus of a parsed statement
subtracts what starts with a number without a sign, from what does not end in a star, the text
without what stands between the two is accepted, and its statement is the same but for positions and
the comments that were left out. And a minus with a digit right behind it subtracts: it is not the
sign of an operand. -/
theorem parseText_minus {file file' : File} {text : String} {expired : Bool} {s : Statement}
    (h : parseText file text expired = .ok (.ok s, file')) :
    (∀ x p y, .binary x p .sub y ∈ s.exprs.flatMap Expr.nodes → y.startsUnsigned →
      x.endsInStar = false → s.ClosesUp file text p y.pos) ∧
    ∀ scanner tokens, Scanner.ofText file text expired = .ok scanner →
      scanner.tokenize.1 = .ok tokens → ∀ t ∈ tokens, t.kind = .minus →
      ∃ before after, text.toList = before ++ '-' :: after ∧ t.pos = file.base + byteLength before ∧
        (startsWithDigit after → (∃ x y, .binary x t.pos .sub y ∈ s.exprs.flatMap Expr.nodes) ∧
          ∀ op x, .unary t.pos op x ∉ s.exprs.flatMap Expr.nodes) :=
  ⟨fun _ _ _ hnode hy hx => parseText_close_up h hnode hy hx,
    fun _ _ hscanner htokens _ hmem ht => exists_sub_of_digit h hscanner htokens hmem ht⟩

/-- The words of the operands of a subtraction, and where the minus and the second operand are. -/
def Expr.subtraction? : Expr → Option (List Word × Nat × Nat × List Word)
  | binary x p .sub y => some (x.yield, p, y.pos, y.yield)
  | _ => none

theorem Expr.subtraction?_eq_some {e : Expr} {ws vs : List Word} {p q : Nat}
    (h : e.subtraction? = some (ws, p, q, vs)) :
    ∃ x y, e = .binary x p .sub y ∧ x.yield = ws ∧ y.pos = q ∧ y.yield = vs := by
  unfold subtraction? at h
  split at h
  · cases h
    exact ⟨_, _, rfl, rfl, rfl, rfl⟩
  · cases h

/-- A comment between a minus and a number, and a minus with a digit behind it. -/
theorem parseText_minus_two_columns :
    ∃ s file' x y, parseText ⟨0, "q.sql", 1, 32, []⟩ "SELECT a - /* b */ 1, c-2 FROM t" =
        .ok (.ok s, file') ∧
      .binary x 10 .sub y ∈ s.exprs.flatMap Expr.nodes ∧ y.startsUnsigned ∧ x.endsInStar = false ∧
      y.pos = 20 ∧ s.ClosesUp ⟨0, "q.sql", 1, 32, []⟩ "SELECT a - /* b */ 1, c-2 FROM t" 10 20 ∧
      ∃ before after, "SELECT a - /* b */ 1, c-2 FROM t".toList = before ++ '-' :: after ∧
        24 = 1 + byteLength before ∧
        (startsWithDigit after → (∃ x y, .binary x 24 .sub y ∈ s.exprs.flatMap Expr.nodes) ∧
          ∀ op x, .unary 24 op x ∉ s.exprs.flatMap Expr.nodes) := by
  have hstatement : ∃ s file', parseText ⟨0, "q.sql", 1, 32, []⟩
      "SELECT a - /* b */ 1, c-2 FROM t" = .ok (.ok s, file') ∧
      (s.exprs.flatMap Expr.nodes).filterMap Expr.subtraction? =
        [([⟨.ident, "a"⟩], 10, 20, [⟨.integer, "1"⟩]),
          ([⟨.ident, "c"⟩], 24, 25, [⟨.integer, "2"⟩])] :=
    exists_statement (by decide +kernel)
  obtain ⟨s, file', hfile, hsubtractions⟩ := hstatement
  obtain ⟨e, he, hsubtraction⟩ :=
    List.mem_filterMap.1 (hsubtractions ▸ List.mem_cons_self)
  obtain ⟨x, y, rfl, hx, hpos, hy⟩ := Expr.subtraction?_eq_some hsubtraction
  have hnumber : y.startsUnsigned := by
    rw [Expr.startsUnsigned, hy]
    decide
  have hstar : x.endsInStar = false := by
    rw [Expr.endsInStar, hx]
    decide
  let scanner : Scanner :=
    { file := ⟨0, "q.sql", 1, 32, []⟩, rest := "SELECT a - /* b */ 1, c-2 FROM t".toList }
  have htokens : scanner.tokenize.1 = .ok [⟨1, .keyword .SELECT, "SELECT"⟩, ⟨8, .ident, "a"⟩,
      ⟨10, .minus, "-"⟩, ⟨12, .comment, "/* b */"⟩, ⟨20, .integer, "1"⟩, ⟨21, .comma, ","⟩,
      ⟨23, .ident, "c"⟩, ⟨24, .minus, "-"⟩, ⟨25, .integer, "2"⟩, ⟨27, .keyword .FROM, "FROM"⟩,
      ⟨32, .ident, "t"⟩, .endOfInput 33] := by decide +kernel
  obtain ⟨hclose, hsub⟩ := parseText_minus hfile
  exact ⟨s, file', x, y, hfile, he, hnumber, hstar, hpos, hpos ▸ hclose x 10 y he hnumber hstar,
    hsub scanner _ rfl htokens ⟨24, .minus, "-"⟩ (by simp) rfl⟩

end SqlFormatter
