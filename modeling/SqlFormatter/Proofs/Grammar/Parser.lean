import SqlFormatter.Grammar.Parser
import SqlFormatter.Proofs.Grammar.Completeness.Statement
import SqlFormatter.Proofs.Grammar.Feed
import SqlFormatter.Proofs.Grammar.Soundness.Statement
import SqlFormatter.Proofs.Token.Scans

/-!
# SqlFormatter.Proofs.Grammar.Parser

A parser in terms of the tokens of its text: without a lexical error the outcome is that of
`Grammar.sentence` on the proper tokens (`Parser.parse_of_tokenize`), and with one there is no
statement. The main result is that what a parser returns is what its tokens say.
-/

namespace SqlFormatter

namespace Parser

/-- Without a lexical error the outcome is that of the grammar, and the statement gets all the
comments. -/
theorem parse_of_tokenize {p : Parser} {all : List Token} (h : p.scanner.tokenize.1 = .ok all) :
    ∃ groups eof, groups.flatMap CommentGroup.toList = all.filterMap Token.comment? ∧
      p.parse.1 =
        match Grammar.sentence (all.filter Token.isProper) with
        | .error r => .error (r.error (.ok eof))
        | .ok s => .ok { s with comments := p.waiting ++ groups } := by
  have hshows : p.scanner.feed.Shows [] p.scanner.tokenize.1 := p.scanner.shows_feedAfter []
  rw [h] at hshows
  obtain ⟨⟨last, hlast, -⟩, htokens, hcomments⟩ := hshows
  refine ⟨p.scanner.feed.groups, last.token, hcomments, ?_⟩
  unfold parse
  dsimp only
  rw [htokens, hlast]
  cases Grammar.sentence (all.filter Token.isProper) <;> rfl

/-- A statement is only returned for a text without a lexical error. -/
theorem tokenize_of_parse_eq_ok {p : Parser} {s : Statement} (h : p.parse.1 = .ok s) :
    ∃ all, p.scanner.tokenize.1 = .ok all := by
  have hshows : p.scanner.feed.Shows [] p.scanner.tokenize.1 := p.scanner.shows_feedAfter []
  cases htokens : p.scanner.tokenize.1 with
  | ok all => exact ⟨all, rfl⟩
  | error e =>
    rw [htokens] at hshows
    have hclosing : p.scanner.feed.closing = .error e := hshows
    unfold parse at h
    dsimp only at h
    rw [hclosing] at h
    cases hsentence : Grammar.sentence p.scanner.feed.tokens with
    | error r =>
      rw [hsentence] at h
      cases h
    | ok s =>
      rw [hsentence] at h
      cases h

/-- What a returned statement is made of. -/
theorem sentence_of_parse_eq_ok {p : Parser} {s : Statement} (h : p.parse.1 = .ok s) :
    ∃ all s₀ groups, p.scanner.tokenize.1 = .ok all ∧
      Grammar.sentence (all.filter Token.isProper) = .ok s₀ ∧
      groups.flatMap CommentGroup.toList = all.filterMap Token.comment? ∧
      s = { s₀ with comments := p.waiting ++ groups } := by
  obtain ⟨all, hall⟩ := tokenize_of_parse_eq_ok h
  obtain ⟨groups, eof, hgroups, hparse⟩ := parse_of_tokenize hall
  cases hsentence : Grammar.sentence (all.filter Token.isProper) with
  | error r =>
    rw [hparse, hsentence] at h
    cases h
  | ok s₀ =>
    rw [hparse, hsentence] at h
    cases h
    exact ⟨all, s₀, groups, hall, hsentence, hgroups, rfl⟩

end Parser

/-- Parsing a text is parsing from a scanner at its start. -/
theorem parseText_eq_ok {file file' : File} {text : String} {expired : Bool}
    {result : Except ParseError Statement}
    (h : parseText file text expired = .ok (result, file')) :
    ∃ scanner, Scanner.ofText file text expired = .ok scanner ∧
      ({ scanner } : Parser).parse.1 = result := by
  obtain ⟨parser, hparser, h⟩ := Grammar.bind_eq_ok h
  obtain ⟨scanner, hscanner, hof⟩ := Grammar.bind_eq_ok hparser
  cases hof
  cases h
  exact ⟨scanner, hscanner, rfl⟩

theorem parseText_eq {file : File} {text : String} {expired : Bool} {scanner : Scanner}
    (h : Scanner.ofText file text expired = .ok scanner) :
    parseText file text expired = .ok
      (({ scanner } : Parser).parse.1, ({ scanner } : Parser).parse.2.scanner.file) := by
  simp only [parseText, Parser.ofText, h]
  rfl

theorem parseText_of_ofText {file : File} {text : String} {expired : Bool} {scanner : Scanner}
    (h : Scanner.ofText file text expired = .ok scanner) :
    ∃ file', parseText file text expired = .ok (({ scanner } : Parser).parse.1, file') :=
  ⟨_, parseText_eq h⟩

/-- What is found of the statement of a text is found of some statement that the text is. -/
theorem exists_statement {α : Type} {file : File} {text : String} {f : Statement → α} {a : α}
    (h : ((parseText file text).toOption.bind fun r => r.1.toOption.map f) = some a) :
    ∃ s file', parseText file text = .ok (.ok s, file') ∧ f s = a := by
  rcases hparse : parseText file text with e | ⟨result, file'⟩
  · rw [hparse] at h
    cases h
  · cases result with
    | error e =>
      rw [hparse] at h
      cases h
    | ok s =>
      rw [hparse] at h
      cases h
      exact ⟨s, file', rfl, rfl⟩

/-! ### What a text and its statement have to do with each other -/

/-- Without a lexical error the outcome of a text with the words of a canonical statement is that
statement, if it stays within the limit on nesting, and otherwise the refusal of deeper nesting. -/
theorem parseText_of_words {s : Statement} (hs : s.Canonical) {file : File} {text : String}
    {expired : Bool} {scanner : Scanner} {tokens : List Token}
    (hscanner : Scanner.ofText file text expired = .ok scanner)
    (htokens : scanner.tokenize.1 = .ok tokens)
    (hwords : (tokens.filter Token.isProper).map Token.word = s.yield ∨
      (tokens.filter Token.isProper).map Token.word = s.yield ++ [.fixed .semicolon]) :
    ∃ result file', parseText file text expired = .ok (result, file') ∧
      (s.nesting ≤ Grammar.maxNesting → ∃ s', result = .ok s' ∧ s'.shape = s.shape ∧
        s'.commentTexts = (tokens.filterMap Token.comment?).map Comment.text) ∧
      (Grammar.maxNesting < s.nesting →
        ∃ found, result = .error (.unexpected .shallowerNesting found)) := by
  obtain ⟨file', hfile⟩ := parseText_of_ofText hscanner
  obtain ⟨groups, eof, hgroups, hparse⟩ :=
    Parser.parse_of_tokenize (p := { scanner }) htokens
  -- The semicolon is left over by the rule for statements.
  have hstarts : ∃ rest, Grammar.Starts (tokens.filter Token.isProper) s.yield rest ∧
      (rest.map Token.word = [] ∨ rest.map Token.word = [.fixed .semicolon]) := by
    rcases hwords with hwords | hwords
    · exact ⟨[], ⟨_, (List.append_nil _).symm, hwords⟩, Or.inl rfl⟩
    · obtain ⟨us, rest, htokens, hus, hrest⟩ := List.map_eq_append_iff.1 hwords
      exact ⟨rest, ⟨us, htokens, hus⟩, Or.inr hrest⟩
  obtain ⟨rest, hstarts, hrest⟩ := hstarts
  have hsentence := Grammar.sentenceOf_complete hs Grammar.maxNesting hstarts hrest
  refine ⟨_, file', hfile, fun hfits => ?_, fun hdeep => ?_⟩
  · obtain ⟨s', hshape, hrun⟩ := hsentence.1 hfits
    rw [hparse, Grammar.sentence, hrun]
    refine ⟨_, rfl, hshape, ?_⟩
    rw [← hgroups, List.map_flatMap]
    rfl
  · obtain ⟨us, hrun⟩ := hsentence.2 (Nat.not_le_of_gt hdeep)
    rw [hparse, Grammar.sentence, hrun]
    -- The refusal names the token where it happened, at the end of the text the end of input.
    cases us with
    | nil => exact ⟨eof, rfl⟩
    | cons u us => exact ⟨u, rfl⟩

/-- The words of a short text, on which the results below are applied. Its minus is no sign, because
a blank stands behind it. -/
theorem tokenize_negated_number :
    ∃ scanner tokens, Scanner.ofText ⟨0, "q.sql", 1, 18, []⟩ "SELECT - 1 FROM t;" = .ok scanner ∧
      scanner.tokenize.1 = .ok tokens ∧
      (tokens.filter Token.isProper).map Token.word =
        [.fixed (.keyword .SELECT), .fixed .minus, ⟨.integer, "1"⟩, .fixed (.keyword .FROM),
          ⟨.ident, "t"⟩, .fixed .semicolon] := by
  let scanner : Scanner := { file := ⟨0, "q.sql", 1, 18, []⟩, rest := "SELECT - 1 FROM t;".toList }
  have hselect : Lexeme.read false .endOfInput 'S' "ELECT - 1 FROM t;".toList =
      ⟨"SELECT".toList, " - 1 FROM t;".toList, .ok (.keyword .SELECT)⟩ := rfl
  have hminus : Lexeme.read false (.keyword .SELECT) '-' " 1 FROM t;".toList =
      ⟨['-'], " 1 FROM t;".toList, .ok .minus⟩ := rfl
  have hone : Lexeme.read false .minus '1' " FROM t;".toList =
      ⟨['1'], " FROM t;".toList, .ok .integer⟩ := by
    have hdigits : readNumber .whole ['1'] = ⟨['1'], [], .ok .whole⟩ := rfl
    have hrest : Delimited " FROM t;".toList := delimited_cons (d := ' ') (by decide) _
    obtain ⟨c, cs, htext, -, hread⟩ :=
      read_number (k := .minus) (Or.inl rfl) (by decide) hdigits rfl hrest.endsNumber
    cases htext
    exact hread
  have hfrom : Lexeme.read false .integer 'F' "ROM t;".toList =
      ⟨"FROM".toList, " t;".toList, .ok (.keyword .FROM)⟩ := rfl
  have hname : Lexeme.read false (.keyword .FROM) 't' [';'] = ⟨['t'], [';'], .ok .ident⟩ := rfl
  have hend : Lexeme.read false .ident ';' [] = ⟨[';'], [], .ok .semicolon⟩ := rfl
  obtain ⟨tokens, htokens, hwords, -⟩ := Scanner.words_of_scans (s := scanner)
    (.token rfl hselect nofun (.gap rfl (.token rfl hminus nofun (.gap rfl (.token rfl hone nofun
      (.gap rfl (.token rfl hfrom nofun (.gap rfl (.token rfl hname nofun
        (.token rfl hend nofun (.done _ _))))))))))) rfl
  exact ⟨scanner, tokens, rfl, htokens, hwords⟩

/-- The statement of the short text: its minus is no sign, because a blank stands behind it. -/
theorem parseText_negated_number :
    ∃ s file', parseText ⟨0, "q.sql", 1, 18, []⟩ "SELECT - 1 FROM t;" = .ok (.ok s, file') ∧
      s.shape = ⟨⟨0, ⟨⟨.unary 0 .neg (.literal 0 .integer "1"), none⟩, []⟩⟩,
        ⟨0, ⟨⟨⟨0, "t"⟩, none⟩, []⟩⟩, none, none, none, []⟩ := by
  let s : Statement := ⟨⟨0, ⟨⟨.unary 0 .neg (.literal 0 .integer "1"), none⟩, []⟩⟩,
    ⟨0, ⟨⟨⟨0, "t"⟩, none⟩, []⟩⟩, none, none, none, []⟩
  obtain ⟨scanner, tokens, hscanner, htokens, hwords⟩ := tokenize_negated_number
  obtain ⟨result, file', hfile, hfits, -⟩ :=
    parseText_of_words (s := s) (by decide) hscanner htokens (Or.inr hwords)
  obtain ⟨s', rfl, hshape, -⟩ := hfits (by decide)
  exact ⟨s', file', hfile, hshape⟩

/-- What a statement has to do with the tokens that it was read from. -/
structure Statement.ReadFrom (s : Statement) (tokens : List Token) : Prop where
  canonical : s.Canonical
  nesting_le : s.nesting ≤ Grammar.maxNesting
  /-- The proper tokens are its own, and perhaps a semicolon. -/
  reads : ∃ rest, Reads (tokens.filter Token.isProper) s.leaves rest ∧
    (rest.map Token.word = [] ∨ rest.map Token.word = [.fixed .semicolon])
  /-- The others are its comments. -/
  comments_eq : s.comments.flatMap CommentGroup.toList = tokens.filterMap Token.comment?

theorem Statement.ReadFrom.words {s : Statement} {tokens : List Token} (h : s.ReadFrom tokens) :
    (tokens.filter Token.isProper).map Token.word = s.yield ∨
      (tokens.filter Token.isProper).map Token.word = s.yield ++ [.fixed .semicolon] := by
  obtain ⟨rest, ⟨read, hread, hspells⟩, hrest⟩ := h.reads
  rw [hread, List.map_append, hspells.map_word]
  exact hrest.imp (fun hrest => by rw [hrest, List.append_nil]; rfl) fun hrest => by
    rw [hrest]
    rfl

/-- A returned statement is read from the tokens of the text. -/
theorem readFrom_of_parseText {file file' : File} {text : String} {expired : Bool} {s : Statement}
    (h : parseText file text expired = .ok (.ok s, file')) :
    ∃ scanner tokens, Scanner.ofText file text expired = .ok scanner ∧
      scanner.tokenize.1 = .ok tokens ∧ s.ReadFrom tokens := by
  obtain ⟨scanner, hscanner, hparse⟩ := parseText_eq_ok h
  obtain ⟨tokens, s₀, groups, htokens, hsentence, hgroups, rfl⟩ :=
    Parser.sentence_of_parse_eq_ok hparse
  obtain ⟨-, hcanonical, hnesting, hreads⟩ := Grammar.sentenceOf_sound hsentence
  exact ⟨scanner, tokens, hscanner, htokens, hcanonical, hnesting, hreads, hgroups⟩

/-- A text with the words that a statement was read from is read as the statement. -/
theorem Statement.ReadFrom.parse_again {s : Statement} {tokens tokens' : List Token} {file : File}
    {text : String} {scanner : Scanner} (h : s.ReadFrom tokens)
    (hscanner : Scanner.ofText file text = .ok scanner) (htokens : scanner.tokenize.1 = .ok tokens')
    (hwords : (tokens'.filter Token.isProper).map Token.word =
      (tokens.filter Token.isProper).map Token.word) :
    ∃ s' file', parseText file text = .ok (.ok s', file') ∧ s'.shape = s.shape ∧
      s'.commentTexts = (tokens'.filterMap Token.comment?).map Comment.text := by
  obtain ⟨result, file', hparse, hfits, -⟩ :=
    parseText_of_words h.canonical hscanner htokens (hwords ▸ h.words)
  obtain ⟨s', rfl, hshape, hcomments⟩ := hfits h.nesting_le
  exact ⟨s', file', hparse, hshape, hcomments⟩

/-- A returned statement is spelled by the proper tokens of the text, perhaps with a semicolon
behind it; it is canonical, and stays within the limit on nesting. -/
theorem parseText_spelled {file file' : File} {text : String} {expired : Bool} {s : Statement}
    (h : parseText file text expired = .ok (.ok s, file')) :
    ∃ scanner tokens, Scanner.ofText file text expired = .ok scanner ∧
      scanner.tokenize.1 = .ok tokens ∧
      ((tokens.filter Token.isProper).map Token.word = s.yield ∨
        (tokens.filter Token.isProper).map Token.word = s.yield ++ [.fixed .semicolon]) ∧
      s.Canonical ∧ s.nesting ≤ Grammar.maxNesting := by
  obtain ⟨scanner, hscanner, hparse⟩ := parseText_eq_ok h
  obtain ⟨tokens, s₀, groups, htokens, hsentence, -, rfl⟩ := Parser.sentence_of_parse_eq_ok hparse
  obtain ⟨-, hcanonical, hnesting, rest, ⟨read, hread, hspells⟩, hrest⟩ :=
    Grammar.sentenceOf_sound hsentence
  refine ⟨scanner, tokens, hscanner, htokens, ?_, hcanonical, hnesting⟩
  rw [hread, List.map_append, hspells.map_word]
  rcases hrest with hrest | hrest
  · exact Or.inl (by rw [hrest, List.append_nil]; rfl)
  · exact Or.inr (by rw [hrest]; rfl)

theorem parseText_spelled_negated_number :
    ∃ s file' scanner tokens,
      parseText ⟨0, "q.sql", 1, 18, []⟩ "SELECT - 1 FROM t;" = .ok (.ok s, file') ∧
      Scanner.ofText ⟨0, "q.sql", 1, 18, []⟩ "SELECT - 1 FROM t;" = .ok scanner ∧
      scanner.tokenize.1 = .ok tokens ∧
      ((tokens.filter Token.isProper).map Token.word = s.yield ∨
        (tokens.filter Token.isProper).map Token.word = s.yield ++ [.fixed .semicolon]) ∧
      s.Canonical ∧ s.nesting ≤ Grammar.maxNesting := by
  obtain ⟨s, file', hfile, -⟩ := parseText_negated_number
  obtain ⟨scanner, tokens, hspelled⟩ := parseText_spelled hfile
  exact ⟨s, file', scanner, tokens, hfile, hspelled⟩

/-- The grammar is complete, and its limit on nesting exact: a text with the words of a canonical
statement is read as that statement, or refused for its nesting if that is beyond the limit. So no
two canonical statements have the same words. -/
theorem parseText_complete :
    (∀ (s : Statement) (file : File) (text : String) (expired : Bool) (scanner : Scanner)
        (tokens : List Token), s.Canonical →
      Scanner.ofText file text expired = .ok scanner → scanner.tokenize.1 = .ok tokens →
      ((tokens.filter Token.isProper).map Token.word = s.yield ∨
        (tokens.filter Token.isProper).map Token.word = s.yield ++ [.fixed .semicolon]) →
      (s.nesting ≤ Grammar.maxNesting →
        ∃ s' file', parseText file text expired = .ok (.ok s', file') ∧ s'.shape = s.shape) ∧
      (Grammar.maxNesting < s.nesting → ∃ found file', parseText file text expired =
        .ok (.error (.unexpected .shallowerNesting found), file'))) ∧
    ∀ s s' : Statement, s.Canonical → s'.Canonical → s.yield = s'.yield → s.shape = s'.shape := by
  refine ⟨fun s file text expired scanner tokens hs hscanner htokens hwords => ?_,
    fun s s' hs hs' hyield => Grammar.shape_eq_of_yield_eq hs hs' hyield⟩
  obtain ⟨result, file', hfile, hfits, hdeep⟩ := parseText_of_words hs hscanner htokens hwords
  constructor
  · intro hnesting
    obtain ⟨s', rfl, hshape, -⟩ := hfits hnesting
    exact ⟨s', file', hfile, hshape⟩
  · intro hnesting
    obtain ⟨found, rfl⟩ := hdeep hnesting
    exact ⟨found, file', hfile⟩

theorem parseText_complete_negated_number :
    ∃ s' file', parseText ⟨0, "q.sql", 1, 18, []⟩ "SELECT - 1 FROM t;" = .ok (.ok s', file') ∧
      s'.shape = (Statement.mk ⟨0, ⟨⟨.unary 0 .neg (.literal 0 .integer "1"), none⟩, []⟩⟩
        ⟨0, ⟨⟨⟨0, "t"⟩, none⟩, []⟩⟩ none none none []).shape := by
  obtain ⟨scanner, tokens, hscanner, htokens, hwords⟩ := tokenize_negated_number
  let s : Statement := ⟨⟨0, ⟨⟨.unary 0 .neg (.literal 0 .integer "1"), none⟩, []⟩⟩,
    ⟨0, ⟨⟨⟨0, "t"⟩, none⟩, []⟩⟩, none, none, none, []⟩
  have hcanonical : s.Canonical := by decide
  have hresult := parseText_complete.1 s _ _ _ _ _ hcanonical hscanner htokens (Or.inr hwords)
  exact hresult.1 (by decide)

end SqlFormatter
