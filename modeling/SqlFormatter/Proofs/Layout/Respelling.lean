import SqlFormatter.Proofs.Layout.Confluence

/-!
# SqlFormatter.Proofs.Layout.Respelling

A layout depends on nothing but the tokens. Two texts may be spaced and commented as they like, and
spell their keywords and not-equal differently (`Token.Respells`); one may end with a semicolon and
the other without. As their tokens have the same words, they are both read as the statement of these
words, and as layouts show no positions they have the same layouts (`parseText_respelled`).
-/

namespace SqlFormatter

/-- The tokens differ at most in their positions and their spelling: the letters of a keyword may be
of either case, and not-equal has two signs. -/
def Token.Respells (t u : Token) : Prop :=
  t.kind = u.kind ∧
    (t.text = u.text ∨
      t.keyword?.isSome ∧ t.text.toList.map Char.toUpper = u.text.toList.map Char.toUpper ∨
        t.kind = .notEq ∧ t.text ∈ ["!=", "<>"] ∧ u.text ∈ ["!=", "<>"])

instance (t u : Token) : Decidable (t.Respells u) := inferInstanceAs (Decidable (_ ∧ _))

/-- The grammar cannot tell how a token is spelled. -/
theorem Token.Respells.word_eq {t u : Token} (h : t.Respells u) : t.word = u.word := by
  obtain ⟨hkind, htext | ⟨hkeyword, -⟩ | ⟨hsign, -⟩⟩ := h
  · rw [word, word, hkind, htext]
  · unfold keyword? at hkeyword
    split at hkeyword
    · next k hk =>
      rw [word, word, ← hkind, hk]
      rfl
    · cases hkeyword
  · rw [word, word, ← hkind, hsign]
    rfl

theorem map_word_eq_of_respells {ts us : List Token} (h : List.Forall₂ Token.Respells ts us) :
    ts.map Token.word = us.map Token.word := by
  induction h with
  | nil => rfl
  | cons ht _ ih => rw [List.map_cons, List.map_cons, ht.word_eq, ih]

/-! ### The semicolon at the end -/

/-- The tokens without a semicolon at their end, if there is one. -/
def withoutSemicolon (ts : List Token) : List Token :=
  if ts.getLast?.any fun t => t.kind = .semicolon then ts.dropLast else ts

theorem Token.word_of_semicolon {t : Token} (h : t.kind = .semicolon) :
    t.word = .fixed .semicolon := by
  rw [word, h]
  rfl

theorem withoutSemicolon_append {ts : List Token} {t : Token} (h : t.kind = .semicolon) :
    withoutSemicolon (ts ++ [t]) = ts := by
  rw [withoutSemicolon, List.getLast?_concat, Option.any_some, if_pos (decide_eq_true h),
    List.dropLast_concat]

/-- What is left are the tokens, or all but the semicolon behind them. -/
theorem withoutSemicolon_cases (ts : List Token) :
    withoutSemicolon ts = ts ∨
      ∃ t : Token, t.kind = .semicolon ∧ ts = withoutSemicolon ts ++ [t] := by
  rcases List.eq_nil_or_concat ts with rfl | ⟨front, t, rfl⟩
  · exact Or.inl rfl
  · rw [List.concat_eq_append]
    by_cases ht : t.kind = .semicolon
    · exact Or.inr ⟨t, ht, by rw [withoutSemicolon_append ht]⟩
    · refine Or.inl ?_
      rw [withoutSemicolon, List.getLast?_concat, Option.any_some,
        if_neg (by simpa using ht)]

/-- A semicolon behind a statement is no part of it. -/
theorem withoutSemicolon_of_words {ts : List Token} {s : Statement}
    (h : ts.map Token.word = s.yield ∨ ts.map Token.word = s.yield ++ [.fixed .semicolon]) :
    (withoutSemicolon ts).map Token.word = s.yield := by
  rcases withoutSemicolon_cases ts with hwhole | ⟨t, ht, hts⟩
  · -- Nothing is left out, so the last word is none of a semicolon.
    rw [hwhole]
    refine h.resolve_right fun hwords => ?_
    obtain ⟨front, last, rfl, -, hlast⟩ := List.map_eq_append_iff.1 hwords
    obtain ⟨t, rfl, ht⟩ := List.map_eq_singleton_iff.1 hlast
    have hkind : t.kind = .semicolon := congrArg Word.kind ht
    rw [withoutSemicolon_append hkind] at hwhole
    simpa using congrArg List.length hwhole
  · rw [hts, List.map_append, List.map_singleton, Token.word_of_semicolon ht] at h
    rcases h with hwords | hwords
    · have hmem : Word.fixed .semicolon ∈ s.yield :=
        hwords ▸ List.mem_append_right _ (List.mem_singleton_self _)
      exact absurd rfl (Statement.kind_of_mem_yield hmem).2
    · exact List.append_cancel_right hwords

theorem words_of_withoutSemicolon {ts : List Token} {s : Statement}
    (h : (withoutSemicolon ts).map Token.word = s.yield) :
    ts.map Token.word = s.yield ∨ ts.map Token.word = s.yield ++ [.fixed .semicolon] := by
  rcases withoutSemicolon_cases ts with hwhole | ⟨t, ht, hts⟩
  · exact Or.inl (by rw [← hwhole, h])
  · exact Or.inr (by
      rw [hts, List.map_append, h, List.map_singleton, Token.word_of_semicolon ht])

/-! ### Texts -/

/-- Statements of one shape with the same comments have the same layouts. -/
theorem Statement.layout_congr {s s' : Statement} (hshape : s.shape = s'.shape)
    (hcomments : s.commentTexts = s'.commentTexts) (style : Style) :
    s.layout style = s'.layout style := by
  rw [s.layout_shape, s'.layout_shape, hshape, hcomments]

/-- A text with the tokens of one that is a statement, however they are spelled and spaced, is the
same statement; with the same comments, wherever they stand, it has the same layouts. -/
theorem parseText_respelled {file₁ file₁' file₂ : File} {text₁ text₂ : String}
    {expired₁ expired₂ : Bool} {s₁ : Statement} {scanner₁ scanner₂ : Scanner}
    {tokens₁ tokens₂ : List Token}
    (h : parseText file₁ text₁ expired₁ = .ok (.ok s₁, file₁'))
    (hscanner₁ : Scanner.ofText file₁ text₁ expired₁ = .ok scanner₁)
    (htokens₁ : scanner₁.tokenize.1 = .ok tokens₁)
    (hscanner₂ : Scanner.ofText file₂ text₂ expired₂ = .ok scanner₂)
    (htokens₂ : scanner₂.tokenize.1 = .ok tokens₂)
    (hrespells : List.Forall₂ Token.Respells
      (withoutSemicolon (tokens₁.filter Token.isProper))
      (withoutSemicolon (tokens₂.filter Token.isProper))) :
    ∃ s₂ file₂', parseText file₂ text₂ expired₂ = .ok (.ok s₂, file₂') ∧ s₂.shape = s₁.shape ∧
      ((tokens₂.filterMap Token.comment?).map Comment.text =
          (tokens₁.filterMap Token.comment?).map Comment.text →
        s₂.commentTexts = s₁.commentTexts ∧
          ∀ style : Style, s₂.layout style = s₁.layout style) := by
  obtain ⟨scanner, tokens, hscanner, htokens, hwords₁, hcanonical, hnesting⟩ := parseText_spelled h
  obtain rfl : scanner = scanner₁ := Except.ok.inj (hscanner.symm.trans hscanner₁)
  obtain rfl : tokens = tokens₁ := Except.ok.inj (htokens.symm.trans htokens₁)
  have hwords₂ := words_of_withoutSemicolon
    ((map_word_eq_of_respells hrespells).symm.trans (withoutSemicolon_of_words hwords₁))
  -- Both texts are read as the statement of these words.
  obtain ⟨result₁, file, hparse₁, hfits₁, -⟩ :=
    parseText_of_words hcanonical hscanner₁ htokens₁ hwords₁
  obtain ⟨s, rfl, -, hcomments₁⟩ := hfits₁ hnesting
  obtain rfl : s = s₁ := by
    rw [h] at hparse₁
    cases hparse₁
    rfl
  obtain ⟨result₂, file₂', hparse₂, hfits₂, -⟩ :=
    parseText_of_words hcanonical hscanner₂ htokens₂ hwords₂
  obtain ⟨s₂, rfl, hshape, hcomments₂⟩ := hfits₂ hnesting
  refine ⟨s₂, file₂', hparse₂, hshape, fun hsame => ?_⟩
  have hcomments : s₂.commentTexts = s.commentTexts := by rw [hcomments₁, hcomments₂, hsame]
  exact ⟨hcomments, Statement.layout_congr hshape hcomments⟩

/-- A text with a semicolon and a comment behind it, and one with a byte order mark, other signs and
letters, and the comment inside. -/
theorem parseText_respelled_signs :
    ∃ s₁ file₁ s₂ file₂,
      parseText ⟨0, "a.sql", 1, 29, []⟩ "SELECT a FROM t WHERE a!=b;#c" = .ok (.ok s₁, file₁) ∧
      parseText ⟨0, "b.sql", 1, 31, []⟩ "\ufeffselect a#c\nfrom t Where a<>b" =
        .ok (.ok s₂, file₂) ∧
      s₂.shape = s₁.shape ∧ ∀ style : Style, s₂.layout style = s₁.layout style := by
  have htokens₁ : ∃ scanner, Scanner.ofText ⟨0, "a.sql", 1, 29, []⟩
      "SELECT a FROM t WHERE a!=b;#c" = .ok scanner ∧ scanner.tokenize.1 = .ok
        [⟨1, .keyword .SELECT, "SELECT"⟩, ⟨8, .ident, "a"⟩, ⟨10, .keyword .FROM, "FROM"⟩,
          ⟨15, .ident, "t"⟩, ⟨17, .keyword .WHERE, "WHERE"⟩, ⟨23, .ident, "a"⟩,
          ⟨24, .notEq, "!="⟩, ⟨26, .ident, "b"⟩, ⟨27, .semicolon, ";"⟩, ⟨28, .comment, "#c"⟩,
          .endOfInput 30] :=
    ⟨_, rfl, by decide +kernel⟩
  have htokens₂ : ∃ scanner, Scanner.ofText ⟨0, "b.sql", 1, 31, []⟩
      "\ufeffselect a#c\nfrom t Where a<>b" = .ok scanner ∧ scanner.tokenize.1 = .ok
        [⟨4, .keyword .SELECT, "select"⟩, ⟨11, .ident, "a"⟩, ⟨12, .comment, "#c"⟩,
          ⟨15, .keyword .FROM, "from"⟩, ⟨20, .ident, "t"⟩, ⟨22, .keyword .WHERE, "Where"⟩,
          ⟨28, .ident, "a"⟩, ⟨29, .notEq, "<>"⟩, ⟨31, .ident, "b"⟩, .endOfInput 32] :=
    ⟨_, rfl, by decide +kernel⟩
  obtain ⟨s₁, file₁, hparse₁, -⟩ : ∃ s₁ file₁, parseText ⟨0, "a.sql", 1, 29, []⟩
      "SELECT a FROM t WHERE a!=b;#c" = .ok (.ok s₁, file₁) ∧ s₁.commentTexts = ["#c"] :=
    exists_statement (by decide +kernel)
  obtain ⟨scanner₁, hscanner₁, htokens₁⟩ := htokens₁
  obtain ⟨scanner₂, hscanner₂, htokens₂⟩ := htokens₂
  obtain ⟨s₂, file₂, hparse₂, hshape, hlayout⟩ :=
    parseText_respelled hparse₁ hscanner₁ htokens₁ hscanner₂ htokens₂ (by decide +kernel)
  exact ⟨s₁, file₁, s₂, file₂, hparse₁, hparse₂, hshape, (hlayout (by decide)).2⟩

end SqlFormatter
