import SqlFormatter.Layout.Style
import SqlFormatter.Proofs.Grammar.Feed
import SqlFormatter.Proofs.Token.Standalone

/-!
# SqlFormatter.Proofs.Token.Scans

The words of a text, piece by piece. `Scans k cs ws k' rest` cuts words off the front of a text
without a scanner, so without positions; `Scanner.tokenize_of_scans` says that a scanner finds the
same words. The lemmas after that are about the pieces that a layout is made of.
-/

namespace SqlFormatter

/-- The kind of the last token that was no comment, after one of kind `kind`. -/
def Kind.after (previous kind : Kind) : Kind := if kind = .comment then previous else kind

/-- After a token of kind `k` the text starts with the words `ws` and goes on with `rest`, where a
token of kind `k'` is the last one that was no comment. -/
inductive Scans : Kind → List Char → List Word → Kind → List Char → Prop where
  /-- No words. -/
  | done (k : Kind) (cs : List Char) : Scans k cs [] k cs
  /-- A gap may stand before words. -/
  | gap {k k' : Kind} {c : Char} {cs rest : List Char} {ws : List Word} (hc : isGap c)
      (h : Scans k cs ws k' rest) : Scans k (c :: cs) ws k' rest
  /-- One word, and then others. -/
  | token {k k' kind : Kind} {c : Char} {cs text others rest : List Char} {ws : List Word}
      (hc : isGap c = false) (hread : Lexeme.read false k c cs = ⟨text, others, .ok kind⟩)
      (hkind : kind ≠ .endOfInput) (h : Scans (k.after kind) others ws k' rest) :
    Scans k (c :: cs) (.of kind (String.ofList text) :: ws) k' rest

theorem Scans.trans {k k' k'' : Kind} {cs mid rest : List Char} {ws vs : List Word}
    (h : Scans k cs ws k' mid) (h' : Scans k' mid vs k'' rest) :
    Scans k cs (ws ++ vs) k'' rest := by
  induction h with
  | done => exact h'
  | gap hc _ ih => exact .gap hc (ih h')
  | token hc hread hkind _ ih => exact .token hc hread hkind (ih h')

/-- A byte order mark starts no lexeme. -/
theorem Lexeme.read_byteOrderMark (expired : Bool) (k : Kind) (cs : List Char) :
    (Lexeme.read expired k byteOrderMark cs).result = .ok .illegal := by
  have hletter : isLetter byteOrderMark = false := by decide +kernel
  rw [Lexeme.read, hletter]
  cases cs <;> rfl

/-! ### Scanners -/

namespace Scanner

theorem lineStarts_append (offset : Nat) (xs ys : List Char) :
    lineStarts offset (xs ++ ys) =
      lineStarts offset xs ++ lineStarts (offset + byteLength xs) ys := by
  induction xs generalizing offset with
  | nil => rfl
  | cons c cs ih =>
    simp only [List.cons_append, lineStarts, ih, byteLength_cons, Nat.add_assoc]
    split <;> rfl

/-- Moving in two steps is moving in one. -/
theorem advance_advance (s : Scanner) (text text' rest rest' : List Char) :
    (s.advance text rest).advance text' rest' = s.advance (text ++ text') rest' := by
  simp [advance, File.addLines, lineStarts_append, byteLength_append, Nat.add_assoc]

/-- A scan may start behind a part of the gap. -/
theorem scan_of_gap {s : Scanner} {c : Char} {cs : List Char} (hrest : s.rest = c :: cs)
    (hc : isGap c) : s.scan = (s.advance [c] cs).scan := by
  have hgap : s.skipGap = (s.advance [c] cs).skipGap := by
    rw [skipGap, skipGap, advance_advance, hrest, List.takeWhile_cons_of_pos hc,
      List.dropWhile_cons_of_pos hc]
    rfl
  rw [scan, scan, hgap]

theorem tokenize_of_scan_eq {s s' : Scanner} (h : s.scan = s'.scan) : s.tokenize = s'.tokenize := by
  rcases hscan : s'.scan with ⟨e | t, last⟩
  · rw [tokenize_of_error hscan, tokenize_of_error (h.trans hscan)]
  · by_cases hend : t.kind = .endOfInput
    · rw [tokenize_of_endOfInput hscan hend, tokenize_of_endOfInput (h.trans hscan) hend]
    · rw [tokenize_of_token hscan hend, tokenize_of_token (h.trans hscan) hend]

/-- A lexeme that is no gap is scanned as it is read. -/
theorem scan_of_read {s : Scanner} {c : Char} {cs text others : List Char} {kind : Kind}
    (hrest : s.rest = c :: cs) (hc : isGap c = false)
    (hread : Lexeme.read s.expired s.previous c cs = ⟨text, others, .ok kind⟩) :
    ∃ s', s.scan = (.ok ⟨s.pos, kind, String.ofList text⟩, s') ∧ s'.rest = others ∧
      s'.previous = s.previous.after kind ∧ s'.expired = s.expired := by
  have hgap : s.skipGap = s := by
    have hnot : ¬isGap c := by simp [hc]
    rw [skipGap, hrest, List.takeWhile_cons_of_neg hnot, List.dropWhile_cons_of_neg hnot]
    obtain ⟨file, rest, offset, previous, expired, errorCount, reports⟩ := s
    cases hrest
    rfl
  have hscan : s.scan = s.settle c (Lexeme.read s.expired s.previous c cs) := by
    rw [scan, hgap]
    simp only [hrest]
  rw [hscan, hread]
  cases kind <;> exact ⟨_, rfl, rfl, rfl, rfl⟩

/-- What a scanner finds in a text that is all words. -/
theorem tokenize_of_scans {s : Scanner} {ws : List Word} {k : Kind}
    (h : Scans s.previous s.rest ws k []) (hexpired : s.expired = false) :
    ∃ tokens p, s.tokenize.1 = .ok (tokens ++ [.endOfInput p]) ∧
      (∀ t ∈ tokens, t.kind ≠ .endOfInput) ∧ tokens.map Token.word = ws := by
  -- The induction is on the words, for whatever scanner stands in front of them.
  generalize hprevious : s.previous = previous at h
  generalize hrest : s.rest = cs at h
  generalize hnil : ([] : List Char) = rest at h
  induction h generalizing s with
  | done k cs =>
    subst hnil
    have hscan : s.scan = (.ok (.endOfInput s.skipGap.pos), s.skipGap) := by
      have hskip : s.skipGap.rest = [] := by
        rw [skipGap, hrest]
        rfl
      rw [scan]
      simp only [hskip]
    rw [tokenize_of_endOfInput hscan rfl]
    exact ⟨[], _, rfl, nofun, rfl⟩
  | gap hc _ ih =>
    rw [tokenize_of_scan_eq (scan_of_gap hrest hc)]
    exact ih hexpired hprevious rfl hnil
  | token hc hread hkind _ ih =>
    obtain ⟨s', hscan, hrest', hprevious', hexpired'⟩ :=
      scan_of_read hrest hc (by rw [hexpired, hprevious]; exact hread)
    obtain ⟨tokens, p, htokens, hproper, hwords⟩ :=
      ih (hexpired'.trans hexpired) (hprevious'.trans (by rw [hprevious])) hrest' hnil
    rw [tokenize_of_token hscan hkind, htokens]
    refine ⟨_ :: tokens, p, rfl, List.forall_mem_cons.2 ⟨hkind, hproper⟩, ?_⟩
    rw [List.map_cons, hwords]
    rfl

/-! ### The start of a text -/

/-- A text without a byte order mark is scanned from its first character. -/
theorem ofText_of_head?_ne {file : File} {text : String}
    (hsize : file.size = byteLength text.toList) (h : text.toList.head? ≠ some byteOrderMark) :
    ofText file text = .ok { file, rest := text.toList } := by
  unfold ofText
  dsimp only
  rw [if_pos hsize]
  cases htext : text.toList with
  | nil => rfl
  | cons c cs =>
    have hc : c ≠ byteOrderMark := fun hc => h (by rw [htext, hc, List.head?_cons])
    dsimp only
    rw [if_neg hc]

/-! ### Proper tokens and comments -/

theorem map_word_filter_isProper {tokens : List Token} (h : ∀ t ∈ tokens, t.kind ≠ .endOfInput) :
    (tokens.filter Token.isProper).map Token.word =
      (tokens.map Token.word).filter (·.kind != .comment) := by
  rw [List.filter_map]
  refine congrArg (List.map Token.word) (List.filter_congr fun t ht => ?_)
  simp [Token.isProper, h t ht]

theorem map_text_filterMap_comment? (tokens : List Token) :
    (tokens.filterMap Token.comment?).map Comment.text =
      ((tokens.map Token.word).filter (·.kind == .comment)).map Word.text := by
  induction tokens with
  | nil => rfl
  | cons t ts ih =>
    by_cases ht : t.kind = .comment
    · rw [List.filterMap_cons_some (b := ⟨t.pos, t.text⟩) (by simp [Token.comment?, ht]),
        List.map_cons, ih, List.map_cons, List.filter_cons_of_pos (by simp [ht]), List.map_cons]
      simp [Token.word, Word.of, ht, Kind.keepsText]
    · rw [List.filterMap_cons_none (by simp [Token.comment?, ht]), ih, List.map_cons,
        List.filter_cons_of_neg (by simp [ht])]

/-- The proper tokens and the comments that a scanner finds in a text that is all words. -/
theorem words_of_scans {s : Scanner} {ws : List Word} {k : Kind}
    (h : Scans s.previous s.rest ws k []) (hexpired : s.expired = false) :
    ∃ tokens, s.tokenize.1 = .ok tokens ∧
      (tokens.filter Token.isProper).map Token.word = ws.filter (·.kind != .comment) ∧
      (tokens.filterMap Token.comment?).map Comment.text =
        (ws.filter (·.kind == .comment)).map Word.text := by
  obtain ⟨tokens, p, htokens, hproper, rfl⟩ := tokenize_of_scans h hexpired
  refine ⟨_, htokens, ?_, ?_⟩
  · rw [List.filter_append, List.map_append, map_word_filter_isProper hproper]
    exact List.append_nil _
  · rw [List.filterMap_append, List.map_append, map_text_filterMap_comment?]
    exact List.append_nil _

end Scanner

end SqlFormatter
