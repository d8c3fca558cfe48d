import SqlFormatter.Proofs.Grammar.Yield
import SqlFormatter.Proofs.Token.Tokenize

/-!
# SqlFormatter.Proofs.Token.Standalone

Lexemes apart from the text around them.

* `Standalone kind text` lists the texts of words, numbers, texts and comments.
* `standalone_of_mem_tokenize`: every such token of a text has one of them, whatever stands before
  and behind it.
* `Standalone.read` and its companions: such a text is read again where what follows cannot continue
  it.
-/

namespace SqlFormatter

/-- The texts that tokens of a kind can have, for kinds with more than one text. -/
inductive Standalone : Kind → List Char → Prop where
  /-- An identifier or a keyword. -/
  | word {c : Char} {cs : List Char} (hc : isLetter c) (hcs : ∀ d ∈ cs, isWordChar d) :
    Standalone (wordKind (c :: cs)) (c :: cs)
  /-- A number, perhaps with a sign. -/
  | number {sign : List Char} {d : Char} {ds : List Char} {part : NumberPart}
      (hsign : sign = [] ∨ sign = ['-']) (hd : d.isDigit)
      (h : readNumber .whole (d :: ds) = ⟨d :: ds, [], .ok part⟩) :
    Standalone part.kind (sign ++ d :: ds)
  /-- A text between quotation marks. -/
  | quoted {body : List Char} (h : ∀ c ∈ body, c ≠ singleQuote) :
    Standalone .string (singleQuote :: (body ++ [singleQuote]))
  /-- A comment after a number sign. -/
  | hashComment {body : List Char} (h : ∀ c ∈ body, c ≠ '\n') : Standalone .comment ('#' :: body)
  /-- A comment after two minuses. -/
  | dashComment {body : List Char} (hblank : body.head?.all isBlank) (h : ∀ c ∈ body, c ≠ '\n') :
    Standalone .comment ('-' :: '-' :: body)
  /-- A comment with an end marker. -/
  | blockComment {body : List Char} (h : Lexeme.blockTail body = ⟨body, [], .ok .comment⟩) :
    Standalone .comment ('/' :: '*' :: body)

/-! ### Characters -/

/-- No character is in ranges that lie apart from those that it is in. -/
theorem inRanges_eq_false_of_apart {ranges others : List CodeRange} {c : Char}
    (h : inRanges ranges c)
    (hapart : ∀ r ∈ ranges, ∀ q ∈ others, r.2 < q.1 ∨ q.2 < r.1) : inRanges others c = false := by
  obtain ⟨r, hr, hc⟩ := List.any_eq_true.1 h
  refine List.any_eq_false.2 fun q hq => ?_
  simp only [Bool.and_eq_true, decide_eq_true_eq] at hc ⊢
  rcases hapart r hr q hq with hlt | hlt <;> omega

/-- A fact about the ASCII characters, checked one by one. -/
theorem forall_ascii {p : Char → Prop} (h : ∀ n < 128, p (Char.ofNat n)) {c : Char}
    (hc : c.toNat < 128) : p c := Char.ofNat_toNat c ▸ h c.toNat hc

theorem isBlank_of_isLetter {c : Char} (h : isLetter c) : isBlank c = false := by
  by_cases hc : c.toNat < 128
  · exact forall_ascii (p := fun c => isLetter c → isBlank c = false) (by decide +kernel) hc h
  · rw [isLetter, if_neg hc] at h
    exact inRanges_eq_false_of_apart h (by decide +kernel)

theorem toNat_lt_of_isDigit {c : Char} (h : c.isDigit) : c.toNat < 128 :=
  Nat.lt_of_le_of_lt (Char.isDigit_iff_toNat.1 h).2 (by decide)

/-- A digit starts numbers only. -/
theorem of_isDigit {c : Char} (h : c.isDigit) :
    isLetter c = false ∧ isBlank c = false ∧ c ≠ '-' :=
  forall_ascii (p := fun c => c.isDigit → isLetter c = false ∧ isBlank c = false ∧ c ≠ '-')
    (by decide +kernel) (toNat_lt_of_isDigit h) h

/-- What stands between tokens is blank. -/
theorem isGap_of_isBlank {c : Char} (h : isBlank c = false) : isGap c = false := by
  rw [Bool.eq_false_iff]
  intro hgap
  simp only [isGap, Bool.or_eq_true, beq_iff_eq] at hgap
  rcases hgap with ((rfl | rfl) | rfl) | rfl <;> revert h <;> decide

/-! ### Lexemes with something else behind them -/

/-- No number goes on with the next character. -/
def EndsNumber (rest : List Char) : Prop :=
  ∀ d ∈ rest.head?, d.isDigit = false ∧ d ≠ '.' ∧ isExponentMarker d = false

theorem readNumber_of_endsNumber {part : NumberPart} {rest : List Char} (h : EndsNumber rest) :
    readNumber part rest = ⟨[], rest, .ok part⟩ := by
  cases rest with
  | nil => rw [readNumber]
  | cons d ds =>
    obtain ⟨hdigit, hpoint, hmarker⟩ := h d rfl
    unfold readNumber
    rw [if_neg (by simp [hdigit]), if_neg hpoint, if_neg (by simp [hmarker])]

theorem startsWithDigit_readNumber {part : NumberPart} {cs : List Char} (rest : List Char)
    (h : startsWithDigit cs) : startsWithDigit ((readNumber part cs).text ++ rest) := by
  cases cs with
  | nil => cases h
  | cons c cs =>
    have hc : c.isDigit := by simpa [startsWithDigit] using h
    rw [readNumber_digit hc]
    exact h

/-- What was read as a number is read again where no number goes on. -/
theorem readNumber_text_append {part last : NumberPart} {cs rest : List Char}
    (h : (readNumber part cs).result = .ok last) (hrest : EndsNumber rest) :
    readNumber part ((readNumber part cs).text ++ rest) =
      ⟨(readNumber part cs).text, rest, .ok last⟩ := by
  fun_induction readNumber part cs with
  | case1 part =>
    cases h
    exact readNumber_of_endsNumber hrest
  | case2 part d ds hd ih =>
    rw [Cut.text_after, List.append_assoc, List.singleton_append, readNumber_digit hd, ih h]
    rfl
  | case3 ds hd ih =>
    -- The decimal point.
    rw [Cut.text_after, List.append_assoc, List.singleton_append]
    conv => lhs; unfold readNumber
    simp only [hd, if_true, ih h]
    rfl
  | case8 part e he hpoint hmarker hpart s ds hs hds ih =>
    -- An exponent with a sign, which digits must follow.
    rw [Cut.text_after, List.append_assoc, List.cons_append, List.singleton_append]
    conv => lhs; unfold readNumber
    simp only [he, hpoint, hmarker, hpart, hs, startsWithDigit_readNumber rest hds, if_true,
      if_false, ih h]
    rfl
  | case10 part e he hpoint hmarker hpart s ds hs hd ih =>
    -- An exponent without a sign: the marker is only taken because a digit stands behind it.
    rw [Cut.text_after, List.append_assoc, List.singleton_append]
    have hread := ih h
    rw [readNumber_digit hd, Cut.text_after, List.append_assoc, List.singleton_append] at hread ⊢
    conv => lhs; unfold readNumber
    simp only [he, hpoint, hmarker, hpart, hs, hd, if_true, if_false, hread]
    rfl
  | case12 part c ds hd hpoint hmarker =>
    cases h
    exact readNumber_of_endsNumber hrest
  | _ => cases h

theorem exists_text_blockTail_eq_cons {d : Char} {cs : List Char} {kind : Kind}
    (h : (Lexeme.blockTail (d :: cs)).result = .ok kind) :
    ∃ ds, (Lexeme.blockTail (d :: cs)).text = d :: ds := by
  cases cs with
  | nil => cases h
  | cons e cs =>
    rw [Lexeme.blockTail]
    split <;> exact ⟨_, rfl⟩

/-- What was read as a block comment is read again, whatever follows. -/
theorem blockTail_text_append {cs : List Char} {kind : Kind} (rest : List Char)
    (h : (Lexeme.blockTail cs).result = .ok kind) :
    Lexeme.blockTail ((Lexeme.blockTail cs).text ++ rest) =
      ⟨(Lexeme.blockTail cs).text, rest, .ok .comment⟩ := by
  fun_induction Lexeme.blockTail cs with
  | case3 c d cs hend => exact if_pos hend
  | case4 c d cs hend ih =>
    obtain ⟨ds, hds⟩ := exists_text_blockTail_eq_cons h
    have hread := ih h
    rw [hds] at hread
    rw [Cut.text_after, hds]
    show Lexeme.blockTail (c :: d :: (ds ++ rest)) = _
    rw [Lexeme.blockTail, if_neg hend]
    exact congrArg (Cut.after [c]) hread
  | _ => cases h

theorem kind_of_blockTail {cs : List Char} {kind : Kind}
    (h : (Lexeme.blockTail cs).result = .ok kind) : kind = .comment := by
  fun_induction Lexeme.blockTail cs with
  | case3 c d cs hend =>
    cases h
    rfl
  | case4 c d cs hend ih => exact ih h
  | _ => cases h

theorem wordKind_cases (word : List Char) :
    wordKind word = .ident ∨ ∃ k, wordKind word = .keyword k := by
  unfold wordKind
  cases Keyword.ofText? word with
  | none => exact Or.inl rfl
  | some k => exact Or.inr ⟨k, rfl⟩

theorem kind_of_number {expired : Bool} {sign digits : List Char} {kind : Kind}
    (h : (Lexeme.number expired sign digits).result = .ok kind) :
    kind = .integer ∨ kind = .real := by
  unfold Lexeme.number at h
  split at h
  · cases h
  · dsimp only at h
    split at h
    · next part _ =>
      cases h
      cases part
      · exact Or.inl rfl
      · exact Or.inr rfl
      · exact Or.inr rfl
    · cases h

theorem kind_of_slash {expired : Bool} {cs : List Char} {kind : Kind}
    (h : (Lexeme.slash expired cs).result = .ok kind) : kind = .comment ∨ kind = .slash := by
  cases cs with
  | nil =>
    cases h
    exact Or.inr rfl
  | cons c cs =>
    rw [Lexeme.slash, Lexeme.blockComment] at h
    split_ifs at h
    · exact Or.inl (kind_of_blockTail h)
    · cases h
      exact Or.inr rfl

/-- The kinds of token of one or two characters that start neither comments nor numbers. -/
def symbolKinds : List Kind :=
  [.plus, .star, .percent, .leftParen, .rightParen, .comma, .semicolon, .dot, .eq, .notEq, .lt,
    .ltEq, .gt, .gtEq, .illegal]

theorem kind_of_symbol {c : Char} {cs : List Char} {kind : Kind}
    (h : (Lexeme.symbol c cs).result = .ok kind) : kind ∈ symbolKinds := by
  have hsingle : ∀ cs, (Lexeme.single c cs).result = .ok kind → kind ∈ symbolKinds := by
    intro cs h
    cases h
    unfold singleKind?
    split <;> decide
  cases cs with
  | nil => exact hsingle [] h
  | cons d cs =>
    unfold Lexeme.symbol at h
    dsimp only at h
    split at h
    · next pair hpair =>
      cases h
      unfold pairKind? at hpair
      split_ifs at hpair <;> cases hpair <;> decide
    · exact hsingle _ h

/-- The kinds of token of one or two characters do not keep their text. -/
theorem keepsText_of_symbol {c : Char} {cs : List Char} {kind : Kind}
    (h : (Lexeme.symbol c cs).result = .ok kind) : kind.keepsText = false :=
  (by decide : ∀ k ∈ symbolKinds, k.keepsText = false) kind (kind_of_symbol h)

theorem number_standalone {expired : Bool} {sign : List Char} {d : Char} {ds : List Char}
    {kind : Kind} (hsign : sign = [] ∨ sign = ['-']) (hd : d.isDigit)
    (h : (Lexeme.number expired sign (d :: ds)).result = .ok kind) :
    Standalone kind (Lexeme.number expired sign (d :: ds)).text := by
  unfold Lexeme.number at *
  split
  · next hexpired =>
    rw [if_pos hexpired] at h
    cases h
  · next hexpired =>
    rw [if_neg hexpired] at h
    cases hpart : (readNumber .whole (d :: ds)).result with
    | error fault =>
      simp only [hpart] at h
      cases h
    | ok part =>
      simp only [hpart] at h ⊢
      cases h
      -- The digits that were read, with nothing behind them.
      have hends : EndsNumber [] := fun _ h => nomatch h
      have hread := readNumber_text_append hpart hends
      rw [readNumber_digit hd, Cut.text_after, List.append_nil] at hread
      rw [readNumber_digit hd]
      exact .number hsign hd hread

theorem quoted_standalone {expired : Bool} {cs : List Char} {kind : Kind}
    (h : (Lexeme.quoted expired cs).result = .ok kind) :
    Standalone kind (Lexeme.quoted expired cs).text := by
  unfold Lexeme.quoted at *
  split
  · next hexpired =>
    rw [if_pos hexpired] at h
    cases h
  · next hexpired =>
    rw [if_neg hexpired] at h
    cases hrest : cs.dropWhile (· != singleQuote) with
    | nil =>
      simp only [hrest] at h
      cases h
    | cons q rest =>
      simp only [hrest] at h ⊢
      cases h
      have hq := List.head?_dropWhile_not (· != singleQuote) cs
      simp only [hrest, List.head?_cons, bne_eq_false_iff_eq] at hq
      subst hq
      refine .quoted fun c hc => ?_
      exact bne_iff_ne.1 (List.all_eq_true.1 List.all_takeWhile c hc)

theorem forall_takeWhile_ne_newline (cs : List Char) : ∀ c ∈ cs.takeWhile (· != '\n'), c ≠ '\n' :=
  fun c hc => bne_iff_ne.1 (List.all_eq_true.1 List.all_takeWhile c hc)

theorem dash_standalone {expired : Bool} {previous kind : Kind} {cs : List Char}
    (h : (Lexeme.dash expired previous cs).result = .ok kind) (hkind : kind.keepsText) :
    Standalone kind (Lexeme.dash expired previous cs).text := by
  cases cs with
  | nil =>
    cases h
    cases hkind
  | cons c cs =>
    rw [Lexeme.dash] at h ⊢
    by_cases hcomment : c = '-' ∧ cs.head?.all isBlank
    · rw [if_pos hcomment] at h ⊢
      cases h
      -- What follows the minuses was blank in the text, or the comment ends there.
      refine .dashComment ?_ (forall_takeWhile_ne_newline cs)
      show (cs.takeWhile (· != '\n')).head?.all isBlank
      cases cs with
      | nil => rfl
      | cons d ds =>
        by_cases hd : d = '\n'
        · rw [List.takeWhile_cons_of_neg (by simp [hd])]
          rfl
        · rw [List.takeWhile_cons_of_pos (by simp [hd])]
          exact hcomment.2
    · rw [if_neg hcomment] at h ⊢
      by_cases hnumber : c.isDigit ∧ previous.endsOperand = false
      · rw [if_pos hnumber] at h ⊢
        exact number_standalone (Or.inr rfl) hnumber.1 h
      · rw [if_neg hnumber] at h
        cases h
        cases hkind

theorem slash_standalone {expired : Bool} {kind : Kind} {cs : List Char}
    (h : (Lexeme.slash expired cs).result = .ok kind) (hkind : kind.keepsText) :
    Standalone kind (Lexeme.slash expired cs).text := by
  cases cs with
  | nil =>
    cases h
    cases hkind
  | cons c cs =>
    rw [Lexeme.slash] at h ⊢
    by_cases hstar : c = '*'
    · rw [if_pos hstar, Lexeme.blockComment] at h ⊢
      cases expired with
      | true => cases h
      | false =>
        have hread := blockTail_text_append [] h
        rw [List.append_nil] at hread
        rw [kind_of_blockTail h]
        exact .blockComment hread
    · rw [if_neg hstar] at h
      cases h
      cases hkind

/-- Whatever stands around it, a lexeme of a kind that keeps its text stands alone. -/
theorem standalone_of_read {expired : Bool} {previous kind : Kind} {c : Char} {cs : List Char}
    (h : (Lexeme.read expired previous c cs).result = .ok kind) (hkind : kind.keepsText) :
    Standalone kind (Lexeme.read expired previous c cs).text := by
  unfold Lexeme.read at *
  by_cases hletter : isLetter c
  · rw [if_pos hletter] at h ⊢
    cases h
    have hword : (c :: cs).takeWhile isWordChar = c :: cs.takeWhile isWordChar :=
      List.takeWhile_cons_of_pos (by rw [isWordChar, hletter, Bool.true_or])
    show Standalone (wordKind ((c :: cs).takeWhile isWordChar)) ((c :: cs).takeWhile isWordChar)
    rw [hword]
    exact .word hletter fun d hd => List.all_eq_true.1 List.all_takeWhile d hd
  · rw [if_neg hletter] at h ⊢
    by_cases hdigit : c.isDigit
    · rw [if_pos hdigit] at h ⊢
      exact number_standalone (Or.inl rfl) hdigit h
    · rw [if_neg hdigit] at h ⊢
      split
      · next hquote =>
        rw [if_pos hquote] at h
        exact quoted_standalone h
      · next hquote =>
        rw [if_neg hquote] at h
        split
        · next hhash =>
          rw [if_pos hhash] at h
          cases h
          exact .hashComment (forall_takeWhile_ne_newline cs)
        · next hhash =>
          rw [if_neg hhash] at h
          split
          · next hdash =>
            rw [if_pos hdash] at h
            exact dash_standalone h hkind
          · next hdash =>
            rw [if_neg hdash] at h
            split
            · next hslash =>
              rw [if_pos hslash] at h
              exact slash_standalone h hkind
            · next hslash =>
              rw [if_neg hslash] at h
              rw [keepsText_of_symbol h] at hkind
              cases hkind

namespace Scanner

theorem text_of_settle_eq_ok {s : Scanner} {c : Char} {l : Lexeme} {t : Token}
    (h : (s.settle c l).1 = .ok t) : t.text = String.ofList l.text := by
  unfold settle at h
  dsimp only at h
  split at h <;> cases h <;> rfl

theorem standalone_of_scan {s s' : Scanner} {t : Token} (h : s.scan = (.ok t, s'))
    (hkind : t.kind.keepsText) : Standalone t.kind t.text.toList := by
  have hscan := congrArg Prod.fst h
  unfold scan at hscan
  dsimp only at hscan
  split at hscan
  · cases hscan
    cases hkind
  · rw [text_of_settle_eq_ok hscan, String.toList_ofList]
    exact standalone_of_read (result_of_settle_eq_ok hscan) hkind

/-- Every token of a text that keeps its text stands alone. -/
theorem standalone_of_mem_tokenize {s : Scanner} {tokens : List Token}
    (h : s.tokenize.1 = .ok tokens) :
    ∀ t ∈ tokens, t.kind.keepsText → Standalone t.kind t.text.toList := by
  induction hn : s.rest.length using Nat.strongRecOn generalizing s tokens with
  | ind n ih =>
    rcases hscan : s.scan with ⟨e | t, s'⟩
    · rw [tokenize_of_error hscan] at h
      cases h
    by_cases hend : t.kind = .endOfInput
    · rw [tokenize_of_endOfInput hscan hend] at h
      cases h
      rw [List.forall_mem_singleton]
      exact standalone_of_scan hscan
    · have hlt := hn ▸ rest_length_lt_of_scan_eq_ok hscan hend
      rw [tokenize_of_token hscan hend] at h
      cases hothers : s'.tokenize.1 with
      | error e =>
        rw [hothers] at h
        cases h
      | ok others =>
        rw [hothers] at h
        cases h
        exact List.forall_mem_cons.2 ⟨standalone_of_scan hscan, ih _ hlt hothers rfl⟩

end Scanner

/-- The text is one token of the kind, and nothing else. -/
def LexesAlone (kind : Kind) (text : String) : Prop :=
  ∃ file scanner tokens, Scanner.ofText file text = .ok scanner ∧
    scanner.tokenize.1 = .ok tokens ∧
    tokens.map (fun t => (t.kind, t.text)) = [(kind, text), (.endOfInput, "")]

theorem LexesAlone.standalone {kind : Kind} {text : String} (h : LexesAlone kind text)
    (hkind : kind.keepsText) : Standalone kind text.toList := by
  obtain ⟨file, scanner, tokens, -, htokens, hpairs⟩ := h
  obtain ⟨t, others, rfl, ht, -⟩ := List.map_eq_cons_iff.1 hpairs
  cases ht
  exact Scanner.standalone_of_mem_tokenize htokens t List.mem_cons_self hkind

/-! ### Reading them again -/

/-- Characters that end words and numbers. -/
def delimiters : List Char := [' ', '\t', '\n', '\r', ',', ')']

/-- The text goes on with a character that ends words and numbers. -/
def Delimited (rest : List Char) : Prop := ∃ d ds, rest = d :: ds ∧ d ∈ delimiters

theorem delimited_cons {d : Char} (h : d ∈ delimiters) (rest : List Char) :
    Delimited (d :: rest) := ⟨d, rest, rfl, h⟩

theorem Delimited.append {rest : List Char} (h : Delimited rest) (others : List Char) :
    Delimited (rest ++ others) := by
  obtain ⟨d, ds, rfl, hd⟩ := h
  exact ⟨d, ds ++ others, rfl, hd⟩

/-- No word goes on with the next character. -/
def EndsWord (rest : List Char) : Prop := ∀ d ∈ rest.head?, isWordChar d = false

theorem Delimited.endsWord {rest : List Char} (h : Delimited rest) : EndsWord rest := by
  have hends : delimiters.all fun d => !isWordChar d := by decide
  obtain ⟨d, ds, rfl, hd⟩ := h
  intro e he
  cases he
  simpa using List.all_eq_true.1 hends d hd

theorem Delimited.endsNumber {rest : List Char} (h : Delimited rest) : EndsNumber rest := by
  have hends : delimiters.all fun d => !d.isDigit && (d != '.' && !isExponentMarker d) := by decide
  obtain ⟨d, ds, rfl, hd⟩ := h
  intro e he
  cases he
  simpa using List.all_eq_true.1 hends d hd

variable {k : Kind} {rest : List Char}

/-- What has the property `p` is cut off where it ends. -/
theorem cut_append {p : Char → Bool} {cs : List Char} (hcs : ∀ c ∈ cs, p c)
    (hrest : ∀ d ∈ rest.head?, p d = false) :
    (cs ++ rest).takeWhile p = cs ∧ (cs ++ rest).dropWhile p = rest := by
  rw [List.takeWhile_append_of_pos hcs, List.dropWhile_append_of_pos hcs]
  cases rest with
  | nil => exact ⟨List.append_nil cs, rfl⟩
  | cons d ds =>
    have hd : ¬p d := by simp [hrest d rfl]
    rw [List.takeWhile_cons_of_neg hd, List.dropWhile_cons_of_neg hd, List.append_nil]
    exact ⟨rfl, rfl⟩

theorem read_word {c : Char} {cs : List Char} (hc : isLetter c) (hcs : ∀ d ∈ cs, isWordChar d)
    (hrest : EndsWord rest) :
    Lexeme.read false k c (cs ++ rest) = ⟨c :: cs, rest, .ok (wordKind (c :: cs))⟩ := by
  have hword : ∀ d ∈ c :: cs, isWordChar d :=
    List.forall_mem_cons.2 ⟨by rw [isWordChar, hc, Bool.true_or], hcs⟩
  have hcut := cut_append hword hrest
  rw [List.cons_append] at hcut
  rw [Lexeme.read, if_pos hc, Lexeme.word, hcut.1, hcut.2]

theorem number_of_readNumber {sign ds : List Char} {part : NumberPart}
    (h : readNumber .whole ds = ⟨ds, [], .ok part⟩) (hrest : EndsNumber rest) :
    Lexeme.number false sign (ds ++ rest) = ⟨sign ++ ds, rest, .ok part.kind⟩ := by
  have hresult : (readNumber .whole ds).result = .ok part := by rw [h]
  have hread := readNumber_text_append hresult hrest
  rw [h] at hread
  simp only [Lexeme.number, Bool.false_eq_true, if_false]
  rw [hread]

theorem read_number {sign ds : List Char} {d : Char} {part : NumberPart}
    (hsign : sign = [] ∨ sign = ['-']) (hd : d.isDigit)
    (h : readNumber .whole (d :: ds) = ⟨d :: ds, [], .ok part⟩)
    (hk : k.endsOperand = false) (hrest : EndsNumber rest) :
    ∃ c cs, sign ++ d :: ds = c :: cs ∧ isGap c = false ∧
      Lexeme.read false k c (cs ++ rest) = ⟨c :: cs, rest, .ok part.kind⟩ := by
  obtain ⟨hletter, hblank, hdash⟩ := of_isDigit hd
  rcases hsign with rfl | rfl
  · refine ⟨d, ds, rfl, isGap_of_isBlank hblank, ?_⟩
    rw [Lexeme.read, hletter, if_neg Bool.false_ne_true, if_pos hd, ← List.cons_append,
      number_of_readNumber h hrest]
    rfl
  · refine ⟨'-', d :: ds, rfl, rfl, ?_⟩
    show Lexeme.dash false k (d :: (ds ++ rest)) = _
    rw [Lexeme.dash, if_neg fun hcomment => hdash hcomment.1, if_pos ⟨hd, hk⟩,
      ← List.cons_append, number_of_readNumber h hrest]
    rfl

theorem read_quoted {body : List Char} (h : ∀ c ∈ body, c ≠ singleQuote) :
    Lexeme.read false k singleQuote (body ++ [singleQuote] ++ rest) =
      ⟨singleQuote :: (body ++ [singleQuote]), rest, .ok .string⟩ := by
  show Lexeme.quoted false (body ++ [singleQuote] ++ rest) = _
  have hquote : ∀ d ∈ (singleQuote :: rest).head?, (d != singleQuote) = false := by simp
  have hcut := cut_append (fun c hc => bne_iff_ne.2 (h c hc)) hquote
  rw [List.append_assoc, List.singleton_append]
  simp only [Lexeme.quoted, Bool.false_eq_true, if_false, hcut.1, hcut.2]
  rfl

/-- A text that stands alone is read again in the place of an operand. -/
theorem Standalone.read {kind : Kind} {text : List Char} (h : Standalone kind text)
    (hkind : kind ≠ .comment) (hk : k.endsOperand = false) (hrest : Delimited rest) :
    ∃ c cs, text = c :: cs ∧ isGap c = false ∧
      Lexeme.read false k c (cs ++ rest) = ⟨text, rest, .ok kind⟩ := by
  cases h with
  | word hc hcs =>
    exact ⟨_, _, rfl, isGap_of_isBlank (isBlank_of_isLetter hc), read_word hc hcs hrest.endsWord⟩
  | number hsign hd h =>
    obtain ⟨c, cs, htext, hgap, hread⟩ := read_number hsign hd h hk hrest.endsNumber
    exact ⟨c, cs, htext, hgap, htext ▸ hread⟩
  | quoted h => exact ⟨_, _, rfl, rfl, read_quoted h⟩
  | hashComment | dashComment | blockComment => exact absurd rfl hkind

theorem lineComment_append_newline {marker body rest : List Char} (h : ∀ c ∈ body, c ≠ '\n') :
    Lexeme.lineComment marker (body ++ '\n' :: rest) =
      ⟨marker ++ body, '\n' :: rest, .ok .comment⟩ := by
  have hnewline : ∀ d ∈ ('\n' :: rest).head?, (d != '\n') = false := by simp
  have hcut := cut_append (fun c hc => bne_iff_ne.2 (h c hc)) hnewline
  rw [Lexeme.lineComment, hcut.1, hcut.2]

theorem kind_number_ne_comment (part : NumberPart) : part.kind ≠ .comment := by
  cases part <;> exact nofun

theorem wordKind_ne_comment (word : List Char) : wordKind word ≠ .comment := by
  intro h
  rcases wordKind_cases word with hword | ⟨k, hword⟩ <;> cases hword.symm.trans h

/-- A number starts with a digit, or with a minus and a digit. -/
theorem Standalone.number_eq {kind : Kind} {text : List Char} (h : Standalone kind text)
    (hkind : kind = .integer ∨ kind = .real) :
    ∃ sign d ds part, text = sign ++ d :: ds ∧ (sign = [] ∨ sign = ['-']) ∧ d.isDigit ∧
      readNumber .whole (d :: ds) = ⟨d :: ds, [], .ok part⟩ ∧ part.kind = kind := by
  cases h with
  | number hsign hd h => exact ⟨_, _, _, _, rfl, hsign, hd, h, rfl⟩
  | @word c cs =>
    rcases wordKind_cases (c :: cs) with hword | ⟨k, hword⟩ <;> rw [hword] at hkind <;>
      rcases hkind with hkind | hkind <;> cases hkind
  | _ => rcases hkind with hkind | hkind <;> cases hkind

/-- A comment with an end marker is read again, whatever follows. -/
theorem Standalone.read_blockComment {text : List Char} (h : Standalone .comment text)
    (hblock : text.take 2 = ['/', '*']) (rest : List Char) :
    ∃ cs, text = '/' :: cs ∧ Lexeme.read false k '/' (cs ++ rest) = ⟨text, rest, .ok .comment⟩ := by
  generalize hkind : Kind.comment = kind at h
  cases h with
  | word => exact absurd hkind.symm (wordKind_ne_comment _)
  | number => exact absurd hkind.symm (kind_number_ne_comment _)
  | quoted => cases hkind
  | hashComment => cases hblock
  | dashComment => cases hblock
  | @blockComment body h =>
    have hresult : (Lexeme.blockTail body).result = .ok .comment := by rw [h]
    have hread := blockTail_text_append rest hresult
    rw [h] at hread
    exact ⟨_, rfl, congrArg (Cut.after ['/', '*']) hread⟩

/-- A comment that stands alone is read again at the end of a line. -/
theorem Standalone.read_comment {text : List Char} (h : Standalone .comment text)
    (rest : List Char) :
    ∃ c cs, text = c :: cs ∧ isGap c = false ∧ c ≠ byteOrderMark ∧
      Lexeme.read false k c (cs ++ '\n' :: rest) = ⟨text, '\n' :: rest, .ok .comment⟩ := by
  generalize hkind : Kind.comment = kind at h
  cases h with
  | word => exact absurd hkind.symm (wordKind_ne_comment _)
  | number => exact absurd hkind.symm (kind_number_ne_comment _)
  | quoted => cases hkind
  | hashComment h => exact ⟨_, _, rfl, rfl, by decide, lineComment_append_newline h⟩
  | @dashComment body hblank h =>
    refine ⟨_, _, rfl, rfl, by decide, ?_⟩
    show Lexeme.dash false k ('-' :: (body ++ '\n' :: rest)) = _
    rw [Lexeme.dash, if_pos, lineComment_append_newline h]
    · rfl
    · refine ⟨rfl, ?_⟩
      cases body with
      | nil => rfl
      | cons => exact hblank
  | blockComment h =>
    obtain ⟨cs, htext, hread⟩ := (Standalone.blockComment h).read_blockComment rfl ('\n' :: rest)
    exact ⟨_, cs, htext, rfl, by decide, hread⟩

/-- A comment without an end marker goes on with what stands between it and the newline. -/
theorem Standalone.append_gap {text gap : List Char} (h : Standalone .comment text)
    (hline : text.take 2 ≠ ['/', '*']) (hgap : ∀ c ∈ gap, isGap c ∧ c ≠ '\n') :
    Standalone .comment (text ++ gap) := by
  have hends : ∀ {body : List Char}, (∀ c ∈ body, c ≠ '\n') → ∀ c ∈ body ++ gap, c ≠ '\n' :=
    fun hbody => List.forall_mem_append.2 ⟨hbody, fun c hc => (hgap c hc).2⟩
  generalize hkind : Kind.comment = kind at h ⊢
  cases h with
  | word => exact absurd hkind.symm (wordKind_ne_comment _)
  | number => exact absurd hkind.symm (kind_number_ne_comment _)
  | quoted => cases hkind
  | hashComment h => exact .hashComment (hends h)
  | @dashComment body hblank h =>
    refine .dashComment ?_ (hends h)
    cases body with
    | cons => exact hblank
    | nil =>
      -- The minuses are followed by the gap itself.
      cases gap with
      | nil => rfl
      | cons c cs =>
        show isBlank c
        by_contra hc
        have hc := isGap_of_isBlank (Bool.eq_false_iff.2 hc)
        rw [(hgap c List.mem_cons_self).1] at hc
        cases hc
  | blockComment => exact absurd rfl hline

end SqlFormatter
