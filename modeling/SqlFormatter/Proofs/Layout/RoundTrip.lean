import SqlFormatter.Proofs.Grammar.Parser
import SqlFormatter.Proofs.Layout.Statement

/-!
# SqlFormatter.Proofs.Layout.RoundTrip

Reading a layout again.

* `parseText_layout_of_legible`: what comes of the layout of a statement whose names, literals and
  comments are tokens by themselves.
* `parseText_layout`: the layout of a statement that was read from a text gives that statement
  again, in normal form.
* `parseText_layout_of_tree`: the layout of any other tree gives that tree again but for
  parentheses, so the layout adds as many as are needed.
-/

namespace SqlFormatter

/-! ### The text from its start -/

/-- A text that starts with a word of the grammar has no byte order mark. -/
theorem Scans.ne_byteOrderMark {k k' : Kind} {c : Char} {cs rest : List Char} {w : Word}
    {ws : List Word} (h : Scans k (c :: cs) (w :: ws) k' rest) (hw : w.kind ≠ .illegal) :
    c ≠ byteOrderMark := by
  rintro rfl
  cases h with
  | gap hc => cases hc
  | token hc hread =>
    have hsymbol := Lexeme.read_byteOrderMark false k cs
    rw [hread] at hsymbol
    cases hsymbol
    exact hw rfl

/-- A scanner at the start of a text that is all words. -/
theorem ofText_of_scans {file : File} {text : String} {k : Kind} {w : Word} {ws : List Word}
    (hsize : file.size = byteLength text.toList)
    (h : Scans .endOfInput text.toList (w :: ws) k []) (hw : w.kind ≠ .illegal) :
    Scanner.ofText file text = .ok { file, rest := text.toList } := by
  refine Scanner.ofText_of_head?_ne hsize fun hmark => ?_
  cases htext : text.toList with
  | nil =>
    rw [htext] at hmark
    cases hmark
  | cons c cs =>
    rw [htext] at h hmark
    exact h.ne_byteOrderMark hw (Option.some.inj hmark)

namespace Statement

variable {s : Statement} {style : Style}

/-- The tokens of a layout. -/
theorem tokenize_layout {gap : List Char} (hlines : style.EndsLines gap) (hlegible : s.Legible)
    (hnull : s.NullTestsUnsigned) {file : File}
    (hsize : file.size = byteLength (s.layout style).toList) :
    ∃ scanner tokens, Scanner.ofText file (s.layout style) = .ok scanner ∧
      scanner.tokenize.1 = .ok tokens ∧
      (tokens.filter Token.isProper).map Token.word =
        s.written.yield ++ (if style.semicolon then [.fixed .semicolon] else []) ∧
      (tokens.filterMap Token.comment?).map Comment.text = s.commentTextsBefore gap := by
  obtain ⟨k, hscans⟩ := scans_layout hlines hlegible hnull .endOfInput
  -- The first word is a comment or SELECT, so no byte order mark is passed over.
  have hscanner : Scanner.ofText file (s.layout style) =
      .ok { file, rest := (s.layout style).toList } := by
    obtain ⟨ws, hws⟩ : ∃ ws, s.written.yield = .fixed (.keyword .SELECT) :: ws := ⟨_, rfl⟩
    unfold commentWords at hscans
    cases htexts : s.commentTextsBefore gap with
    | nil =>
      rw [htexts, hws] at hscans
      exact ofText_of_scans hsize hscans nofun
    | cons text texts =>
      rw [htexts] at hscans
      exact ofText_of_scans hsize hscans nofun
  obtain ⟨tokens, htokens, hwords, hcomments⟩ :=
    Scanner.words_of_scans (s := { file, rest := (s.layout style).toList }) hscans rfl
  refine ⟨_, tokens, hscanner, htokens, ?_, ?_⟩
  -- The comments and the words of the statement are told apart by their kinds.
  · rw [hwords, List.filter_append, List.filter_append, List.filter_eq_nil_iff.2, List.nil_append,
      List.filter_eq_self.2]
    · cases style.semicolon <;> rfl
    · intro w hw
      simp [(kind_of_mem_yield hw).1]
    · simp [commentWords]
  · rw [hcomments, List.filter_append, List.filter_append, List.filter_eq_self.2,
      List.filter_eq_nil_iff.2, List.append_nil]
    · cases style.semicolon <;> simp [commentWords, Function.comp_def, Word.fixed]
    · intro w hw
      simp [(kind_of_mem_yield hw).1]
    · simp [commentWords]

end Statement

/-- What comes of a layout: the statement as it is written, if it stays within the limit on nesting,
and otherwise the refusal of deeper nesting. -/
theorem parseText_layout_of_endsLines {s : Statement} (hlegible : s.Legible)
    (hnull : s.NullTestsApart) {style : Style} {gap : List Char} (hlines : style.EndsLines gap)
    {file : File} (hsize : file.size = byteLength (s.layout style).toList) :
    ∃ result file', parseText file (s.layout style) = .ok (result, file') ∧
      (s.written.nesting ≤ Grammar.maxNesting → ∃ s', result = .ok s' ∧
        s'.shape = s.written.shape ∧ s'.commentTexts = s.commentTextsBefore gap) ∧
      (Grammar.maxNesting < s.written.nesting →
        ∃ found, result = .error (.unexpected .shallowerNesting found)) := by
  obtain ⟨scanner, tokens, hscanner, htokens, hwords, hcomments⟩ :=
    s.tokenize_layout hlines hlegible hnull.unsigned hsize
  have hcanonical : s.written.Canonical := by
    rw [Statement.Canonical, Statement.written, Statement.exprs_mapExprs, List.forall_mem_map]
    exact fun e he => Expr.canonical_written (hnull e he)
  rw [← hcomments]
  refine parseText_of_words hcanonical hscanner htokens ?_
  rw [hwords]
  cases style.semicolon with
  | true => exact Or.inr rfl
  | false => exact Or.inl (List.append_nil _)

/-- Where nothing stands before the newlines, the comments are read as they are. -/
theorem parseText_layout_of_legible {s : Statement} (hlegible : s.Legible)
    (hnull : s.NullTestsApart) {style : Style} (hnewline : style.newline = "\n") {file : File}
    (hsize : file.size = byteLength (s.layout style).toList) :
    ∃ result file', parseText file (s.layout style) = .ok (result, file') ∧
      (s.written.nesting ≤ Grammar.maxNesting → ∃ s', result = .ok s' ∧
        s'.shape = s.written.shape ∧ s'.commentTexts = s.commentTexts) ∧
      (Grammar.maxNesting < s.written.nesting →
        ∃ found, result = .error (.unexpected .shallowerNesting found)) := by
  rw [← s.commentTextsBefore_nil]
  exact parseText_layout_of_endsLines hlegible hnull (.of_newline hnewline) hsize

/-! ### Statements that were read -/

theorem Expr.nullTestsApart_of_canonical {e : Expr} (h : e.Canonical) : e.NullTestsApart := by
  intro x hx
  have hroot := h x hx
  cases x with
  | unary p op y | isNull y p q =>
    cases y with
    | isNull => cases hroot
    | _ => rfl
  | _ => trivial

/-- A statement that was read can be read again. -/
theorem canonical_of_parseText {file file' : File} {text : String} {expired : Bool} {s : Statement}
    (h : parseText file text expired = .ok (.ok s, file')) :
    s.Canonical ∧ s.nesting ≤ Grammar.maxNesting := by
  obtain ⟨scanner, tokens, -, -, hread⟩ := readFrom_of_parseText h
  exact ⟨hread.canonical, hread.nesting_le⟩

/-- The names, literals and comments of a statement that was read are tokens of its text. -/
theorem legible_of_parseText {file file' : File} {text : String} {expired : Bool} {s : Statement}
    (h : parseText file text expired = .ok (.ok s, file')) : s.Legible := by
  obtain ⟨scanner, tokens, -, htokens, hs⟩ := readFrom_of_parseText h
  obtain ⟨rest, ⟨read, hread, hspells⟩, -⟩ := hs.reads
  have hstandalone := Scanner.standalone_of_mem_tokenize htokens
  constructor
  · -- A leaf has the word of one of the tokens that the grammar read.
    intro l hl hkeeps
    have hword : l.word ∈ read.map Token.word := by
      rw [hspells.map_word]
      exact List.mem_map_of_mem hl
    obtain ⟨t, ht, hword⟩ := List.mem_map.1 hword
    have ht : t ∈ tokens := by
      have hproper : t ∈ tokens.filter Token.isProper := hread ▸ List.mem_append_left rest ht
      exact (List.mem_filter.1 hproper).1
    rw [← hword, Token.kind_word] at hkeeps ⊢
    rw [Token.word, Word.of, if_pos hkeeps]
    exact hstandalone t ht hkeeps
  · -- A comment is one of the tokens that the grammar does not see.
    intro g hg c hc
    have hcomment : c ∈ tokens.filterMap Token.comment? :=
      hs.comments_eq ▸ List.mem_flatMap.2 ⟨g, hg, hc⟩
    obtain ⟨t, ht, hc⟩ := List.mem_filterMap.1 hcomment
    have hkind : t.kind = .comment := by
      by_contra hkind
      rw [Token.comment?, if_neg hkind] at hc
      cases hc
    rw [Token.comment?, if_pos hkind] at hc
    cases hc
    exact hkind ▸ hstandalone t ht (by rw [hkind]; rfl)

namespace Statement

/-- What a statement that is read from a layout has in common with the one laid out. -/
theorem bareForm_of_written {s s' : Statement} (hshape : s'.shape = s.written.shape)
    (hcomments : s'.commentTexts = s.commentTexts) : s'.bareForm = s.bareForm := by
  have hexprs : ∀ e : Expr, e.written.mergeSigns.eraseParens = e.mergeSigns.eraseParens := by
    intro e
    rw [Expr.written, Expr.mergeSigns_mergeSigns]
    exact e.eraseParens_written
  have hmerge := shape_mapExprs Expr.shape_mergeSigns
  have herase := shape_mapExprs Expr.shape_eraseParens
  rw [bareForm, bareForm, normalForm, normalForm, hcomments, hshape]
  dsimp only
  rw [← hmerge, ← hmerge, ← herase, ← herase, written, mapExprs_mapExprs, mapExprs_mapExprs,
    mapExprs_mapExprs, mapExprs_congr fun e _ => hexprs e]

theorem normalForm_fst_of_written {s s' : Statement} (hcanonical : s.Canonical)
    (hshape : s'.shape = s.written.shape) : s'.normalForm.1 = s.normalForm.1 := by
  have hexprs : ∀ e ∈ s.exprs, e.written.mergeSigns = e.mergeSigns := by
    intro e he
    rw [Expr.written_of_canonical (hcanonical e he), Expr.mergeSigns_mergeSigns]
  have hmerge := shape_mapExprs Expr.shape_mergeSigns
  rw [normalForm, normalForm, hshape, ← hmerge, ← hmerge, written, mapExprs_mapExprs,
    mapExprs_congr hexprs]

theorem normalForm_of_written {s s' : Statement} (hcanonical : s.Canonical)
    (hshape : s'.shape = s.written.shape) (hcomments : s'.commentTexts = s.commentTexts) :
    s'.normalForm = s.normalForm :=
  Prod.ext (normalForm_fst_of_written hcanonical hshape) hcomments

/-- The layout does not nest deeper than a canonical statement. -/
theorem nesting_written_le {s : Statement} (hcanonical : s.Canonical) :
    s.written.nesting ≤ s.nesting := by
  rw [nesting_le_iff, written, exprs_mapExprs, List.forall_mem_map]
  intro e he
  rw [Expr.written_of_canonical (hcanonical e he)]
  exact Nat.lt_of_le_of_lt e.nesting_mergeSigns_le (nesting_le_iff.1 (Nat.le_refl _) e he)

end Statement

/-- The layout of a statement that was read from a text is read as the tree it is written for. -/
theorem written_of_parseText_layout_of_endsLines {file file' : File} {text : String}
    {expired : Bool} {s : Statement} (h : parseText file text expired = .ok (.ok s, file'))
    {style : Style} {gap : List Char} (hlines : style.EndsLines gap) {target : File}
    (hsize : target.size = byteLength (s.layout style).toList) :
    ∃ s' target', parseText target (s.layout style) = .ok (.ok s', target') ∧
      s'.shape = s.written.shape ∧ s'.commentTexts = s.commentTextsBefore gap := by
  obtain ⟨hcanonical, hnesting⟩ := canonical_of_parseText h
  have hnull : s.NullTestsApart := fun e he => Expr.nullTestsApart_of_canonical (hcanonical e he)
  obtain ⟨result, target', hresult, hfits, -⟩ :=
    parseText_layout_of_endsLines (legible_of_parseText h) hnull hlines hsize
  obtain ⟨s', rfl, hshape, htexts⟩ :=
    hfits (Nat.le_trans (Statement.nesting_written_le hcanonical) hnesting)
  exact ⟨s', target', hresult, hshape, htexts⟩

theorem written_of_parseText_layout {file file' : File} {text : String} {expired : Bool}
    {s : Statement} (h : parseText file text expired = .ok (.ok s, file')) {style : Style}
    (hnewline : style.newline = "\n") {target : File}
    (hsize : target.size = byteLength (s.layout style).toList) :
    ∃ s' target', parseText target (s.layout style) = .ok (.ok s', target') ∧
      s'.shape = s.written.shape ∧ s'.commentTexts = s.commentTexts := by
  rw [← s.commentTextsBefore_nil]
  exact written_of_parseText_layout_of_endsLines h (.of_newline hnewline) hsize

/-- The layout of a statement that was read from a text is read as that statement, up to positions,
the grouping of comments, and signs that merge with their numbers. -/
theorem parseText_layout {file file' : File} {text : String} {expired : Bool} {s : Statement}
    (h : parseText file text expired = .ok (.ok s, file')) {style : Style}
    (hnewline : style.newline = "\n") {target : File}
    (hsize : target.size = byteLength (s.layout style).toList) :
    ∃ s' target', parseText target (s.layout style) = .ok (.ok s', target') ∧
      s'.normalForm = s.normalForm := by
  obtain ⟨hcanonical, -⟩ := canonical_of_parseText h
  obtain ⟨s', target', hresult, hshape, htexts⟩ := written_of_parseText_layout h hnewline hsize
  exact ⟨s', target', hresult, Statement.normalForm_of_written hcanonical hshape htexts⟩

theorem parseText_layout_negated_number :
    ∃ s file' s' target',
      parseText ⟨0, "q.sql", 1, 18, []⟩ "SELECT - 1 FROM t;" = .ok (.ok s, file') ∧
      parseText ⟨0, "q.sql", 1, byteLength (s.layout {}).toList, []⟩ (s.layout {}) =
        .ok (.ok s', target') ∧
      s'.normalForm = s.normalForm := by
  obtain ⟨s, file', hfile, -⟩ := parseText_negated_number
  have hnewline : ({} : Style).newline = "\n" := rfl
  have hsize : ∀ n, (File.mk 0 "q.sql" 1 n []).size = n := fun _ => rfl
  obtain ⟨s', target', htarget, hnormal⟩ := parseText_layout hfile hnewline (hsize _)
  exact ⟨s, file', s', target', hfile, htarget, hnormal⟩

/-- The layout of a tree is read as that tree, up to parentheses, positions, the grouping of
comments, and signs that merge with their numbers: the names, the literals and the comments must be
tokens by themselves, and no test for null may be the operand of a prefix operator or of another
test. If the layout nests too deep, it is refused for that. -/
theorem parseText_layout_of_tree {s : Statement}
    (hleaves : ∀ l ∈ s.leaves, l.word.kind.keepsText → LexesAlone l.word.kind l.word.text)
    (hcomments : ∀ g ∈ s.comments, ∀ c ∈ g.toList, LexesAlone .comment c.text)
    (hnull : s.NullTestsApart) {style : Style} (hnewline : style.newline = "\n") {file : File}
    (hsize : file.size = byteLength (s.layout style).toList) :
    (s.written.nesting ≤ Grammar.maxNesting → ∃ s' file',
      parseText file (s.layout style) = .ok (.ok s', file') ∧ s'.bareForm = s.bareForm) ∧
    (Grammar.maxNesting < s.written.nesting → ∃ found file', parseText file (s.layout style) =
      .ok (.error (.unexpected .shallowerNesting found), file')) := by
  have hlegible : s.Legible := ⟨fun l hl hkeeps => (hleaves l hl hkeeps).standalone hkeeps,
    fun g hg c hc => (hcomments g hg c hc).standalone rfl⟩
  obtain ⟨result, file', hresult, hfits, hdeep⟩ :=
    parseText_layout_of_legible hlegible hnull hnewline hsize
  constructor
  · intro hnesting
    obtain ⟨s', rfl, hshape, htexts⟩ := hfits hnesting
    exact ⟨s', file', hresult, Statement.bareForm_of_written hshape htexts⟩
  · intro hnesting
    obtain ⟨found, rfl⟩ := hdeep hnesting
    exact ⟨found, file', hresult⟩

/-- The name of the tree below. -/
theorem lexesAlone_a : LexesAlone .ident "a" := by
  let scanner : Scanner := { file := ⟨0, "", 1, 1, []⟩, rest := "a".toList }
  have hread : Lexeme.read false .endOfInput 'a' [] = ⟨['a'], [], .ok .ident⟩ := rfl
  obtain ⟨tokens, p, htokens, -, hwords⟩ := Scanner.tokenize_of_scans (s := scanner)
    (scans_of_read rfl hread nofun nofun) rfl
  obtain ⟨t, others, rfl, ht, hothers⟩ := List.map_eq_cons_iff.1 hwords
  obtain rfl := List.map_eq_nil_iff.1 hothers
  have hkind : t.kind = .ident := congrArg Word.kind ht
  have htext : t.text = "a" := by
    have htext := congrArg Word.text ht
    simpa [Token.word, Word.of, hkind, Kind.keepsText] using htext
  refine ⟨scanner.file, scanner, _, rfl, htokens, ?_⟩
  simp [hkind, htext, Token.endOfInput]

/-- The layout of a difference under a difference, which needs the parentheses that are added. -/
theorem parseText_layout_nested_difference :
    let a : Expr := .column none ⟨0, "a"⟩
    let s : Statement := ⟨⟨0, ⟨⟨.binary a 0 .sub (.binary a 0 .sub a), none⟩, []⟩⟩,
      ⟨0, ⟨⟨⟨0, "a"⟩, none⟩, []⟩⟩, none, none, none, []⟩
    ∃ s' file', parseText ⟨0, "q.sql", 1, byteLength (s.layout {}).toList, []⟩ (s.layout {}) =
        .ok (.ok s', file') ∧ s'.bareForm = s.bareForm := by
  intro a s
  have hleaves : ∀ l ∈ s.leaves, l.word.kind.keepsText → LexesAlone l.word.kind l.word.text := by
    have hwords : ∀ l ∈ s.leaves, l.word.kind.keepsText → l.word = ⟨.ident, "a"⟩ := by decide
    intro l hl hkeeps
    rw [hwords l hl hkeeps]
    exact lexesAlone_a
  have hcomments : ∀ g ∈ s.comments, ∀ c ∈ g.toList, LexesAlone .comment c.text := nofun
  have hnull : s.NullTestsApart := by decide
  have hnewline : ({} : Style).newline = "\n" := rfl
  have hsize : ∀ n, (File.mk 0 "q.sql" 1 n []).size = n := fun _ => rfl
  have hfits := (parseText_layout_of_tree hleaves hcomments hnull hnewline (hsize _)).1
  exact hfits (by decide)

end SqlFormatter
