import Mathlib.Data.List.Chain
import SqlFormatter.Proofs.Text.Utf8
import SqlFormatter.Proofs.Token.Scan

/-!
# SqlFormatter.Proofs.Token.Lossless

Cutting a text into tokens loses nothing.

* `Tiles p cs ts`: the tokens `ts` and the gaps between them lie side by side and cover the text
  `cs`, which starts at position `p`. The tokens of a scanner do so (`Scanner.tiles_tokenize`).
* What is said of the places of tokens is read off from that, by induction on `Tiles`.
* `tokenize_lossless` is the main result. It speaks of the bytes of the source.
-/

namespace SqlFormatter

/-! ### The bytes of gaps and tokens -/

/-- The bytes of the characters that may stand between tokens: blank, tab, newline and carriage
return. -/
def gapBytes : List UInt8 := [0x20, 0x09, 0x0A, 0x0D]

theorem mem_gapBytes_of_isGap {gap : List Char} (hgap : ∀ c ∈ gap, isGap c) :
    ∀ b ∈ encodeUtf8 (String.ofList gap), b ∈ gapBytes := by
  rw [encodeUtf8_eq_flatMap, String.toList_ofList, List.forall_mem_flatMap]
  intro c hc
  have h := hgap c hc
  simp only [isGap, Bool.or_eq_true, beq_iff_eq] at h
  rcases h with ((rfl | rfl) | rfl) | rfl <;> exact List.forall_mem_singleton.2 (by decide)

/-- The bytes between two positions of a text that starts at `base`. -/
theorem bytesBetween_positions {text : String} {base start stop : Nat}
    {before middle after : List Char} (h : text.toList = before ++ (middle ++ after))
    (hstart : start = base + byteLength before) (hstop : stop = start + byteLength middle) :
    bytesBetween text (start - base) (stop - base) = encodeUtf8 (String.ofList middle) := by
  have hfirst : start - base = byteLength before := by omega
  have hlast : stop - base = byteLength before + byteLength middle := by omega
  rw [hfirst, hlast, bytesBetween_of_append h]

theorem byteLength_pos {cs : List Char} (h : cs ≠ []) : 0 < byteLength cs := by
  cases cs with
  | nil => exact absurd rfl h
  | cons c cs =>
    have hsize := c.utf8Size_pos
    rw [byteLength_cons]
    omega

/-! ### Tokens side by side -/

/-- The tokens are those of the text at position `p`, with gaps between them, and then the end of
input. -/
inductive Tiles : Nat → List Char → List Token → Prop where
  /-- Nothing but a gap is left. -/
  | endOfInput {p : Nat} {gap : List Char} (hgap : ∀ c ∈ gap, isGap c) :
    Tiles p gap [.endOfInput (p + byteLength gap)]
  /-- A gap, a token, and what follows it. -/
  | token {p : Nat} {gap text rest : List Char} {kind : Kind} {ts : List Token}
      (hgap : ∀ c ∈ gap, isGap c) (htext : text ≠ []) (hkind : kind ≠ .endOfInput)
      (h : Tiles (p + byteLength gap + byteLength text) rest ts) :
    Tiles p (gap ++ (text ++ rest)) (⟨p + byteLength gap, kind, String.ofList text⟩ :: ts)

/-! ### The end of input is no lexeme -/

namespace Lexeme

variable {expired : Bool}

theorem number_ne_endOfInput (sign digits : List Char) :
    (number expired sign digits).result ≠ .ok .endOfInput := by
  intro h
  rcases kind_of_number h with h | h <;> cases h

theorem dash_ne_endOfInput (previous : Kind) (cs : List Char) :
    (dash expired previous cs).result ≠ .ok .endOfInput := by
  cases cs with
  | nil => rintro ⟨⟩
  | cons c cs =>
    rw [dash]
    split_ifs
    · rintro ⟨⟩
    · exact number_ne_endOfInput _ _
    · rintro ⟨⟩

theorem slash_ne_endOfInput (cs : List Char) : (slash expired cs).result ≠ .ok .endOfInput := by
  intro h
  rcases kind_of_slash h with h | h <;> cases h

theorem symbol_ne_endOfInput (c : Char) (cs : List Char) :
    (symbol c cs).result ≠ .ok .endOfInput := by
  intro h
  exact absurd (kind_of_symbol h) (by decide)

theorem read_ne_endOfInput (previous : Kind) (c : Char) (cs : List Char) :
    (read expired previous c cs).result ≠ .ok .endOfInput := by
  unfold read
  split_ifs
  · simp only [word, wordKind]
    cases Keyword.ofText? ((c :: cs).takeWhile isWordChar) <;> rintro ⟨⟩
  · exact number_ne_endOfInput _ _
  · unfold quoted
    split_ifs
    · rintro ⟨⟩
    · split <;> rintro ⟨⟩
  · rintro ⟨⟩
  · exact dash_ne_endOfInput _ _
  · exact slash_ne_endOfInput _
  · exact symbol_ne_endOfInput _ _

end Lexeme

namespace Scanner

theorem tokenize_of_rest_eq_nil {s : Scanner} (h : s.rest = []) :
    s.tokenize.1 = .ok [.endOfInput s.pos] := by
  rcases s.ends_or_meets with hends | ⟨gap, c, cs, hmeets⟩
  · rw [tokenize_of_endOfInput hends.scan_eq rfl, h]
    rfl
  · have hrest := h.symm.trans hmeets.rest_eq
    simp at hrest

/-- The tokens of a scanner are the end of input, or start with a token that is not. -/
theorem tokenize_eq_ok {s : Scanner} {tokens : List Token} (h : s.tokenize.1 = .ok tokens) :
    (s.Ends ∧ tokens = [.endOfInput (s.pos + byteLength s.rest)]) ∨
      ∃ gap c cs t u others, tokens = t :: others ∧ t.kind ≠ .endOfInput ∧ s.Meets gap c cs ∧
        s.skipGap.Takes (Lexeme.read s.expired s.previous c cs) t u ∧
        u.tokenize.1 = .ok others ∧ u.rest.length < s.rest.length := by
  rcases hscan : s.scan with ⟨e | t, u⟩
  · rw [tokenize_of_error hscan] at h
    cases h
  rcases scan_eq_ok hscan with ⟨hends, rfl, -⟩ | ⟨gap, c, cs, hmeets, htakes⟩
  · rw [tokenize_of_endOfInput hscan rfl] at h
    cases h
    exact Or.inl ⟨hends, rfl⟩
  · have hkind : t.kind ≠ .endOfInput := fun hend =>
      Lexeme.read_ne_endOfInput _ _ _ (hend ▸ htakes.result_eq)
    rw [tokenize_of_token hscan hkind] at h
    cases hothers : u.tokenize.1 with
    | error e =>
      rw [hothers] at h
      cases h
    | ok others =>
      rw [hothers] at h
      cases h
      exact Or.inr ⟨gap, c, cs, t, u, others, rfl, hkind, hmeets, htakes, hothers,
        rest_length_lt_of_scan_eq_ok hscan hkind⟩

/-- The tokens of a scanner and the gaps between them cover the text from it on. -/
theorem tiles_tokenize {s : Scanner} {tokens : List Token} (h : s.tokenize.1 = .ok tokens) :
    Tiles s.pos s.rest tokens := by
  induction hn : s.rest.length using Nat.strongRecOn generalizing s tokens with
  | ind n ih =>
    rcases tokenize_eq_ok h with
      ⟨hends, rfl⟩ | ⟨gap, c, cs, t, u, others, rfl, hkind, hmeets, htakes, hothers, hlt⟩
    · exact .endOfInput hends.isGap_of_mem
    · have htiles := ih _ (hn ▸ hlt) hothers rfl
      have hpos := htakes.pos_eq.trans hmeets.pos_skipGap
      rw [htakes.pos_after, hmeets.pos_skipGap, htakes.rest_after] at htiles
      rw [hmeets.rest_eq, ← Lexeme.read_append s.expired s.previous c cs]
      obtain ⟨pos, kind, text⟩ := t
      cases hpos
      cases htakes.text_eq
      exact .token hmeets.isGap_of_mem (Lexeme.text_ne_nil_of_ok htakes.result_eq) hkind htiles

end Scanner

namespace Tiles

variable {p : Nat} {cs : List Char} {ts : List Token}

/-- The end of input is the last token and no other, and no other token is empty. -/
theorem exists_init (h : Tiles p cs ts) :
    ∃ init, ts = init ++ [.endOfInput (p + byteLength cs)] ∧
      ∀ t ∈ init, t.kind ≠ .endOfInput ∧ t.text ≠ "" := by
  induction h with
  | endOfInput => exact ⟨[], rfl, nofun⟩
  | @token p gap text rest kind ts hgap htext hkind htiles ih =>
    obtain ⟨init, rfl, hinit⟩ := ih
    have htext' : String.ofList text ≠ "" := by simpa using htext
    refine ⟨⟨p + byteLength gap, kind, String.ofList text⟩ :: init, ?_,
      List.forall_mem_cons.2 ⟨⟨hkind, htext'⟩, hinit⟩⟩
    simp only [byteLength_append, Nat.add_assoc, List.cons_append]

/-- No token lies before the text. -/
theorem le_pos (h : Tiles p cs ts) : ∀ t ∈ ts, p ≤ t.pos := by
  induction h with
  | endOfInput => exact List.forall_mem_singleton.2 (Nat.le_add_right ..)
  | token _ _ _ _ ih =>
    refine List.forall_mem_cons.2 ⟨Nat.le_add_right .., fun t ht => ?_⟩
    have hle := ih t ht
    omega

/-- The tokens are in order, and no two of them overlap. -/
theorem pairwise (h : Tiles p cs ts) : ts.Pairwise fun t u => t.pos < u.pos ∧ t.stop ≤ u.pos := by
  induction h with
  | endOfInput => exact List.pairwise_singleton ..
  | token hgap htext hkind htiles ih =>
    refine List.pairwise_cons.2 ⟨fun u hu => ?_, ih⟩
    have hle := htiles.le_pos u hu
    have hpos := byteLength_pos htext
    simp only [Token.stop, String.toList_ofList]
    omega

section Bytes

variable {text : String} {base : Nat} {before : List Char}

/-- A token has the bytes of the source at its place. -/
theorem bytes_token (h : Tiles p cs ts) (htext : text.toList = before ++ cs)
    (hp : p = base + byteLength before) :
    ∀ t ∈ ts, bytesBetween text (t.pos - base) (t.stop - base) = encodeUtf8 t.text := by
  induction h generalizing before with
  | @endOfInput p gap hgap =>
    refine List.forall_mem_singleton.2 ?_
    have htext' : text.toList = (before ++ gap) ++ ([] ++ []) := by simpa using htext
    refine bytesBetween_positions htext' ?_ rfl
    simp only [Token.endOfInput, byteLength_append]
    omega
  | @token p gap lexeme rest kind ts hgap hlexeme hkind htiles ih =>
    have htext' : text.toList = (before ++ gap) ++ (lexeme ++ rest) := by
      rw [htext, List.append_assoc]
    have hrest : text.toList = (before ++ gap ++ lexeme) ++ rest := by
      rw [htext', List.append_assoc _ lexeme]
    have hp' : p + byteLength gap + byteLength lexeme =
        base + byteLength (before ++ gap ++ lexeme) := by
      simp only [byteLength_append]
      omega
    refine List.forall_mem_cons.2 ⟨bytesBetween_positions htext' ?_ ?_, ih hrest hp'⟩
    · simp only [byteLength_append]
      omega
    · simp only [Token.stop, String.toList_ofList]

/-- In front of the first token there is a gap. -/
theorem bytes_first_gap (h : Tiles p cs ts) (htext : text.toList = before ++ cs)
    (hp : p = base + byteLength before) :
    ∀ t ∈ ts.head?, ∀ b ∈ bytesBetween text (p - base) (t.pos - base), b ∈ gapBytes := by
  intro t ht
  cases h with
  | @endOfInput _ _ hgap =>
    cases ht
    have htext' : text.toList = before ++ (cs ++ []) := by simpa using htext
    rw [Token.endOfInput, bytesBetween_positions htext' hp rfl]
    exact mem_gapBytes_of_isGap hgap
  | token hgap =>
    cases ht
    rw [bytesBetween_positions htext hp rfl]
    exact mem_gapBytes_of_isGap hgap

/-- Between two tokens there is a gap. -/
theorem bytes_gaps (h : Tiles p cs ts) (htext : text.toList = before ++ cs)
    (hp : p = base + byteLength before) :
    ts.IsChain fun t u => ∀ b ∈ bytesBetween text (t.stop - base) (u.pos - base), b ∈ gapBytes := by
  induction h generalizing before with
  | endOfInput => exact List.isChain_singleton _
  | @token p gap lexeme rest kind ts hgap hlexeme hkind htiles ih =>
    have htext' : text.toList = (before ++ gap ++ lexeme) ++ rest := by
      rw [htext]
      simp only [List.append_assoc]
    have hp' : p + byteLength gap + byteLength lexeme =
        base + byteLength (before ++ gap ++ lexeme) := by
      simp only [byteLength_append]
      omega
    have hstop : (Token.mk (p + byteLength gap) kind (String.ofList lexeme)).stop =
        p + byteLength gap + byteLength lexeme := by
      rw [Token.stop, String.toList_ofList]
    refine List.isChain_cons.2 ⟨?_, ih htext' hp'⟩
    rw [hstop]
    exact htiles.bytes_first_gap htext' hp'

end Bytes

/-- The text is made of the gaps and the tokens. -/
theorem exists_gaps (h : Tiles p cs ts) :
    ∃ gaps : List (List Char), gaps.length = ts.length ∧ (∀ gap ∈ gaps, ∀ c ∈ gap, isGap c) ∧
      cs = (List.zipWith (fun gap t => gap ++ t.text.toList) gaps ts).flatten := by
  induction h with
  | @endOfInput p gap hgap =>
    exact ⟨[gap], rfl, List.forall_mem_singleton.2 hgap, by simp [Token.endOfInput]⟩
  | @token p gap lexeme rest kind ts hgap hlexeme hkind htiles ih =>
    obtain ⟨gaps, hlength, hgaps, hrest⟩ := ih
    refine ⟨gap :: gaps, by rw [List.length_cons, hlength, List.length_cons],
      List.forall_mem_cons.2 ⟨hgap, hgaps⟩, ?_⟩
    rw [List.zipWith_cons_cons, List.flatten_cons, ← hrest, String.toList_ofList,
      List.append_assoc]

end Tiles

/-! ### The text of a file -/

/-- The byte order mark that the text starts with, if it does. -/
def leadingMark (text : String) : List Char :=
  text.toList.head?.toList.filter (· == byteOrderMark)

/-- A scanner at the start of a text stands behind the byte order mark. -/
theorem Scanner.ofText_eq_ok {file : File} {text : String} {expired : Bool} {scanner : Scanner}
    (h : Scanner.ofText file text expired = .ok scanner) :
    text.toList = leadingMark text ++ scanner.rest ∧ file.size = byteLength text.toList ∧
      scanner.pos = file.base + byteLength (leadingMark text) ∧ scanner.previous = .endOfInput ∧
      scanner.expired = expired := by
  unfold Scanner.ofText at h
  dsimp only at h
  split at h
  · next hsize =>
    unfold leadingMark
    cases htext : text.toList with
    | nil =>
      simp only [htext] at h hsize
      cases h
      exact ⟨rfl, hsize, rfl, rfl, rfl⟩
    | cons c cs =>
      simp only [htext] at h hsize
      by_cases hmark : c = byteOrderMark
      · rw [if_pos hmark] at h
        cases h
        refine ⟨?_, hsize, ?_, rfl, rfl⟩
        · simp [hmark]
        · rw [Scanner.pos_advance]
          simp [hmark, Scanner.pos]
      · rw [if_neg hmark] at h
        cases h
        refine ⟨?_, hsize, ?_, rfl, rfl⟩
        · simp [hmark]
        · simp [hmark, Scanner.pos]
  · cases h

/-- The tokens of the text of a file, the gaps between them and a byte order mark at its start make
up the whole text, and each token stands where its position says. -/
structure Lossless (file : File) (text : String) (tokens : List Token) : Prop where
  /-- No token lies before the file, and each has the bytes of the file at its place. -/
  bytes_token : ∀ t ∈ tokens, file.base ≤ t.pos ∧
    bytesBetween text (t.pos - file.base) (t.stop - file.base) = encodeUtf8 t.text
  /-- The tokens are in order, and no two of them overlap. -/
  ordered : tokens.Pairwise fun t u => t.pos < u.pos ∧ t.stop ≤ u.pos
  /-- In front of the first token there is a gap, behind the byte order mark. -/
  bytes_first_gap : ∀ t ∈ tokens.head?,
    ∀ b ∈ bytesBetween text (byteLength (leadingMark text)) (t.pos - file.base), b ∈ gapBytes
  /-- Between two tokens there is a gap. -/
  bytes_gaps : tokens.IsChain fun t u =>
    ∀ b ∈ bytesBetween text (t.stop - file.base) (u.pos - file.base), b ∈ gapBytes
  /-- The last token is the end of input at the end of the file, and no other token is the end of
  input or empty. -/
  ends : ∃ init, tokens = init ++ [.endOfInput (file.base + file.size)] ∧
    ∀ t ∈ init, t.kind ≠ .endOfInput ∧ t.text ≠ ""
  /-- The text is made of the byte order mark, the gaps and the tokens. -/
  recovers : ∃ gaps : List (List Char), gaps.length = tokens.length ∧
    (∀ gap ∈ gaps, ∀ c ∈ gap, isGap c) ∧
    text.toList = leadingMark text ++
      (List.zipWith (fun gap t => gap ++ t.text.toList) gaps tokens).flatten

/-- Cutting the text of a file into tokens loses nothing, whatever the base of the file is. -/
theorem tokenize_lossless {file : File} {text : String} {expired : Bool} {scanner : Scanner}
    {tokens : List Token} (hscanner : Scanner.ofText file text expired = .ok scanner)
    (htokens : scanner.tokenize.1 = .ok tokens) : Lossless file text tokens := by
  obtain ⟨htext, hsize, hpos, -, -⟩ := Scanner.ofText_eq_ok hscanner
  have htiles := Scanner.tiles_tokenize htokens
  obtain ⟨init, htokens, hinit⟩ := htiles.exists_init
  obtain ⟨gaps, hlength, hgaps, hrest⟩ := htiles.exists_gaps
  constructor
  · intro t ht
    have hle := htiles.le_pos t ht
    exact ⟨by omega, htiles.bytes_token htext hpos t ht⟩
  · exact htiles.pairwise
  · have hfirst := htiles.bytes_first_gap htext hpos
    rwa [hpos, Nat.add_sub_cancel_left] at hfirst
  · exact htiles.bytes_gaps htext hpos
  · have hend : scanner.pos + byteLength scanner.rest = file.base + file.size := by
      rw [hpos, hsize, htext, byteLength_append]
      omega
    exact ⟨init, hend ▸ htokens, hinit⟩
  · exact ⟨gaps, hlength, hgaps, hrest ▸ htext⟩

/-- A text with a byte order mark, letters beyond ASCII and a comment. Its minus is no sign, because
a name stands before it. -/
theorem tokenize_marked_text :
    ∃ scanner, Scanner.ofText ⟨0, "q.sql", 7, 16, []⟩ "\ufeffé -- ü\n-1.5" = .ok scanner ∧
      scanner.tokenize.1 = .ok [⟨10, .ident, "é"⟩, ⟨13, .comment, "-- ü"⟩, ⟨19, .minus, "-"⟩,
        ⟨20, .real, "1.5"⟩, .endOfInput 23] :=
  ⟨_, rfl, by decide +kernel⟩

theorem tokenize_lossless_marked_text :
    (∃ scanner, Scanner.ofText ⟨0, "q.sql", 7, 16, []⟩ "\ufeffé -- ü\n-1.5" = .ok scanner ∧
      scanner.tokenize.1 = .ok [⟨10, .ident, "é"⟩, ⟨13, .comment, "-- ü"⟩, ⟨19, .minus, "-"⟩,
        ⟨20, .real, "1.5"⟩, .endOfInput 23]) ∧
    Lossless ⟨0, "q.sql", 7, 16, []⟩ "\ufeffé -- ü\n-1.5" [⟨10, .ident, "é"⟩,
      ⟨13, .comment, "-- ü"⟩, ⟨19, .minus, "-"⟩, ⟨20, .real, "1.5"⟩, .endOfInput 23] := by
  obtain ⟨scanner, hscanner, htokens⟩ := tokenize_marked_text
  exact ⟨⟨scanner, hscanner, htokens⟩, tokenize_lossless hscanner htokens⟩

end SqlFormatter
