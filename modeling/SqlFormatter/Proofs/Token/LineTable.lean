import Mathlib.Data.List.Sort
import SqlFormatter.Proofs.Checked.Reports

/-!
# SqlFormatter.Proofs.Token.LineTable

The line starts that a file knows while scanners read its text.

* Whatever scans give, and whenever time runs out for them, they move the scanner over a front of
  what is left, and its file takes note of the line starts in that front (`Scanner.Passes`). One
  lemma for each thing that a scanner does leads up to `Scanner.passes_scans`.
* A file that only one scanner has read in knows the lines up to that scanner (`File.Knows.append`),
  and one that knows all lines is not changed by any scanner (`File.Knows.addLines_eq`).
* `lineTable` is the table by the bytes of the text. The line starts in a front of the text, which
  are counted by characters, are its entries (`lineTable_eq`).

`lines_scans` is the main result.
-/

namespace SqlFormatter

/-! ### Moving over the text -/

namespace Scanner

variable {s t u : Scanner}

/-- The scanner `t` stands behind `text`, which `s` stands in front of, and the file has taken note
of the line starts in between. -/
structure Passes (s : Scanner) (text : List Char) (t : Scanner) : Prop where
  rest_eq : s.rest = text ++ t.rest
  offset_eq : t.offset = s.offset + byteLength text
  file_eq : t.file = s.file.addLines (lineStarts s.offset text)

variable {text text' : List Char}

theorem Passes.refl (s : Scanner) : s.Passes [] s := ⟨rfl, rfl, rfl⟩

theorem Passes.trans (h : s.Passes text t) (h' : t.Passes text' u) :
    s.Passes (text ++ text') u where
  rest_eq := by rw [h.rest_eq, h'.rest_eq, List.append_assoc]
  offset_eq := by rw [h'.offset_eq, h.offset_eq, byteLength_append, Nat.add_assoc]
  file_eq := by
    rw [h'.file_eq, h.file_eq, h.offset_eq, lineStarts_append]
    simp only [File.addLines, List.foldl_append]

theorem passes_advance {rest : List Char} (h : s.rest = text ++ rest) :
    s.Passes text (s.advance text rest) := ⟨h, rfl, rfl⟩

theorem passes_settle {l : Lexeme} (c : Char) (h : s.rest = l.text ++ l.rest) :
    s.Passes l.text (s.settle c l).2 := by
  unfold settle
  dsimp only
  -- What comes of the lexeme only shows in the reports and in the kind remembered.
  split <;> exact ⟨h, rfl, rfl⟩

/-- A scan moves the scanner over a gap, and over what it found of a lexeme behind that. -/
theorem passes_scanBy (time : Option Nat) (s : Scanner) :
    ∃ text, s.Passes text (s.scanBy time).2 := by
  have hgap : s.Passes (s.rest.takeWhile isGap) s.skipGap :=
    passes_advance List.takeWhile_append_dropWhile.symm
  unfold scanBy
  dsimp only
  split
  · exact ⟨_, hgap⟩
  · next c cs hcons =>
    have hrest := hcons.trans
      (Lexeme.readBy_append time s.skipGap.expired s.skipGap.previous c cs).symm
    exact ⟨_, hgap.trans (passes_settle c hrest)⟩

theorem passes_scans (s : Scanner) (clock : Clock) : ∃ text, s.Passes text (s.scans clock).2 := by
  induction clock generalizing s with
  | nil => exact ⟨[], .refl s⟩
  | cons time clock ih =>
    obtain ⟨text, hscan⟩ := s.passes_scanBy time
    obtain ⟨text', hscans⟩ := ih (s.scanBy time).2
    exact ⟨text ++ text', hscan.trans hscans⟩

/-- At the start of a text a scanner has passed the byte order mark, if there is one. -/
theorem passes_ofText {file : File} {source : String} {expired : Bool}
    (h : ofText file source expired = .ok s) :
    ∃ mark, ({ file, rest := source.toList, expired } : Scanner).Passes mark s := by
  unfold ofText at h
  dsimp only at h
  split at h
  · cases hsource : source.toList with
    | nil =>
      rw [hsource] at h
      cases h
      exact ⟨[], .refl _⟩
    | cons c cs =>
      rw [hsource] at h
      cases h
      split
      · exact ⟨[c], passes_advance rfl⟩
      · exact ⟨[], .refl _⟩
  · cases h

/-- A scanner that was made for a text, and any number of scans later, has passed a front of the
text. -/
theorem passes_scans_ofText {file : File} {source : String} {expired : Bool}
    (h : ofText file source expired = .ok s) (clock : Clock) : ∃ passed,
      ({ file, rest := source.toList, expired } : Scanner).Passes passed (s.scans clock).2 := by
  obtain ⟨mark, hmark⟩ := passes_ofText h
  obtain ⟨text, hscans⟩ := s.passes_scans clock
  exact ⟨mark ++ text, hmark.trans hscans⟩

end Scanner

/-! ### What the file comes to know -/

namespace File

variable {f : File} {cs passed more : List Char}

/-- Reading on from where the known lines end makes the lines known up to where it ends. -/
theorem Knows.append (h : f.Knows passed) (more : List Char) :
    (f.addLines (lineStarts (byteLength passed) more)).Knows (passed ++ more) := by
  obtain ⟨known, -, hmore, hknown, hknows⟩ :=
    h.addLines (List.prefix_refl passed) (List.prefix_append passed more) (List.prefix_refl _)
  rwa [hknown.eq_of_length_le hmore.length_le] at hknows

/-- Two files that were registered as one and know the same lines are the same. -/
theorem eq_of_unread {g : File} (h : g.unread = f.unread) (hlines : g.laterLines = f.laterLines) :
    g = f := by
  obtain ⟨hid, hname, hbase, hsize⟩ := unread_eq_iff.1 h
  cases f
  cases g
  simp_all

/-- To a file that knows all lines of its text reading brings nothing new. -/
theorem Knows.addLines_eq (h : f.Knows cs) (hmore : passed ++ more <+: cs) :
    f.addLines (lineStarts (byteLength passed) more) = f := by
  have hpassed : passed <+: cs := (List.prefix_append passed more).trans hmore
  obtain ⟨known, hlonger, -, hknown, hknows⟩ := h.addLines hpassed (List.prefix_refl cs) hmore
  rw [hknown.eq_of_length_le hlonger.length_le] at hknows
  refine eq_of_unread (f.unread_addLines _) ?_
  rw [← List.reverse_inj, hknows, h, size_addLines]

end File

/-! ### The table by bytes -/

/-- The starts of lines as the first `read` bytes of the text tell: the first byte, and the byte
behind each newline, in order. Behind a newline at the end of the text no line starts. -/
def lineTable (text : String) (read : Nat) : List Nat :=
  0 :: ((List.range (encodeUtf8 text).length).filter fun i =>
    (encodeUtf8 text)[i]? = some newlineByte ∧ i + 1 ≤ read ∧
      i + 1 < (encodeUtf8 text).length).map (· + 1)

section Bytes

variable {k start : Nat} {cs passed rest : List Char} {text : String}

theorem mem_lineStarts_singleton {c : Char} : k ∈ lineStarts start [c] ↔
    ∃ i, k = start + i + 1 ∧ (String.utf8EncodeChar c)[i]? = some newlineByte := by
  by_cases hc : c = '\n'
  · subst hc
    rw [utf8EncodeChar_newline]
    constructor
    · intro hk
      exact ⟨0, List.mem_singleton.1 hk, rfl⟩
    · rintro ⟨i, rfl, hi⟩
      cases i with
      | zero => exact List.mem_singleton_self _
      | succ i => simp at hi
  · simp only [lineStarts, if_neg hc, List.not_mem_nil, false_iff, not_exists, not_and]
    intro i _ hi
    exact newlineByte_notMem hc (List.mem_of_getElem? hi)

/-- Lines start behind the bytes of newlines. -/
theorem mem_lineStarts_iff : k ∈ lineStarts start cs ↔
    ∃ i, k = start + i + 1 ∧ (encodeUtf8 (String.ofList cs))[i]? = some newlineByte := by
  induction cs generalizing start with
  | nil => simp [lineStarts, encodeUtf8_eq_flatMap]
  | cons c cs ih =>
    rw [← List.singleton_append, Scanner.lineStarts_append, List.mem_append,
      mem_lineStarts_singleton, ih, encodeUtf8_ofList_append, encodeUtf8_ofList_singleton]
    have hlength : byteLength [c] = (String.utf8EncodeChar c).length := by
      simp [String.length_utf8EncodeChar]
    rw [hlength]
    constructor
    · -- The index is one of the bytes of the character, or of one behind it.
      rintro (⟨i, rfl, hi⟩ | ⟨i, rfl, hi⟩)
      · obtain ⟨hlt, -⟩ := List.getElem?_eq_some_iff.1 hi
        exact ⟨i, rfl, by rw [List.getElem?_append_left hlt, hi]⟩
      · refine ⟨(String.utf8EncodeChar c).length + i, by omega, ?_⟩
        rw [List.getElem?_append_right (Nat.le_add_right ..), Nat.add_sub_cancel_left, hi]
    · rintro ⟨i, rfl, hi⟩
      rcases Nat.lt_or_ge i (String.utf8EncodeChar c).length with hlt | hge
      · rw [List.getElem?_append_left hlt] at hi
        exact Or.inl ⟨i, rfl, hi⟩
      · rw [List.getElem?_append_right hge] at hi
        exact Or.inr ⟨_, by omega, hi⟩

/-- The table up to the end of a front of the text has the lines that start in that front. -/
theorem lineTable_eq (h : text.toList = passed ++ rest) : lineTable text (byteLength passed) =
    0 :: (lineStarts 0 passed).filter (· < byteLength text.toList) := by
  have hbytes : encodeUtf8 text =
      encodeUtf8 (String.ofList passed) ++ encodeUtf8 (String.ofList rest) := by
    rw [← encodeUtf8_ofList_append, ← h, String.ofList_toList]
  have hlength : (encodeUtf8 text).length = byteLength text.toList := by
    rw [← length_encodeUtf8_ofList, String.ofList_toList]
  -- Both lists are in order, so it is enough that they have the same members.
  refine congrArg (0 :: ·) (List.Pairwise.eq_of_mem_iff (r := (· < ·)) ?_ ?_ fun k => ?_)
  · rw [List.pairwise_map]
    exact (List.pairwise_lt_range.filter _).imp (by simp)
  · exact (pairwise_lineStarts 0 passed).filter _
  · rw [List.mem_map, List.mem_filter, mem_lineStarts_iff, hlength]
    constructor
    · rintro ⟨i, hi, rfl⟩
      rw [List.mem_filter, decide_eq_true_eq] at hi
      obtain ⟨-, hbyte, hread, hsize⟩ := hi
      rw [hbytes, List.getElem?_append_left (by rw [length_encodeUtf8_ofList]; omega)] at hbyte
      exact ⟨⟨i, by omega, hbyte⟩, decide_eq_true hsize⟩
    · rintro ⟨⟨i, rfl, hbyte⟩, hsize⟩
      rw [decide_eq_true_eq, Nat.zero_add] at hsize
      obtain ⟨hlt, -⟩ := List.getElem?_eq_some_iff.1 hbyte
      have hread := hlt
      rw [length_encodeUtf8_ofList] at hread
      refine ⟨i, List.mem_filter.2 ⟨List.mem_range.2 (by omega), decide_eq_true ⟨?_, hread, hsize⟩⟩,
        by omega⟩
      rw [hbytes, List.getElem?_append_left hlt, hbyte]

/-- A file with the table of the whole text knows all lines of it. -/
theorem File.knows_of_lines_eq {f : File} (hsize : f.size = byteLength text.toList)
    (h : f.lines = lineTable text f.size) : f.Knows text.toList := by
  rw [hsize, lineTable_eq (List.append_nil _).symm] at h
  rw [Knows, hsize]
  exact List.tail_eq_of_cons_eq h

theorem File.Knows.lines_eq {f : File} (h : f.Knows passed) (htext : text.toList = passed ++ rest)
    (hsize : f.size = byteLength text.toList) : f.lines = lineTable text (byteLength passed) := by
  rw [lineTable_eq htext, lines, h, hsize]

end Bytes

/-! ### Scan after scan -/

section Scans

variable {file : File} {text : String} {s : Scanner} {expired : Bool}

namespace Scanner

/-- In a file without lines a scanner makes those known that start in front of it. -/
theorem lines_scans_eq (h : ofText file text expired = .ok s) (hnew : file.Knows [])
    (hsize : file.size = byteLength text.toList) (clock : Clock) :
    (s.scans clock).2.file.lines = lineTable text (s.scans clock).2.offset := by
  obtain ⟨passed, hpassed⟩ := passes_scans_ofText h clock
  have hknows := hnew.append passed
  rw [hpassed.offset_eq, Nat.zero_add, hpassed.file_eq]
  exact hknows.lines_eq hpassed.rest_eq (by rw [File.size_addLines, hsize])

theorem offset_scans_of_rest_eq_nil (h : ofText file text expired = .ok s) {clock : Clock}
    (hrest : (s.scans clock).2.rest = []) :
    (s.scans clock).2.offset = byteLength text.toList := by
  obtain ⟨passed, hpassed⟩ := passes_scans_ofText h clock
  have htext : text.toList = passed ++ (s.scans clock).2.rest := hpassed.rest_eq
  rw [hpassed.offset_eq, Nat.zero_add, htext, hrest, List.append_nil]

/-- A file that knows all lines stays as it is, whatever scanner of its text goes on in it. -/
theorem file_scans_eq (h : ofText file text expired = .ok s) (clock clock' : Clock)
    {g : File} (hknows : g.Knows text.toList) :
    ({ (s.scans clock).2 with file := g }.scans clock').2.file = g := by
  obtain ⟨passed, hpassed⟩ := passes_scans_ofText h clock
  obtain ⟨more, hmore⟩ := passes_scans { (s.scans clock).2 with file := g } clock'
  have hfront : passed ++ more <+: text.toList := by
    refine ⟨({ (s.scans clock).2 with file := g }.scans clock').2.rest, ?_⟩
    rw [List.append_assoc, ← hmore.rest_eq]
    exact hpassed.rest_eq.symm
  have hoffset : (s.scans clock).2.offset = byteLength passed := by
    rw [hpassed.offset_eq, Nat.zero_add]
  rw [hmore.file_eq]
  show g.addLines (lineStarts (s.scans clock).2.offset more) = g
  rw [hoffset, hknows.addLines_eq hfront]

/-- Neither is it changed by a scanner that starts in it. -/
theorem file_scans_ofText_eq (h : ofText file text expired = .ok s)
    (hknows : file.Knows text.toList) (clock : Clock) : (s.scans clock).2.file = file := by
  obtain ⟨passed, hpassed⟩ := passes_scans_ofText h clock
  have hfront : [] ++ passed <+: text.toList := ⟨(s.scans clock).2.rest, hpassed.rest_eq.symm⟩
  rw [hpassed.file_eq]
  exact hknows.addLines_eq hfront

end Scanner

/-- The line table follows the scanner. On a file that was just registered a scanner starts, and
after any number of scans, with or without a deadline, the table has the lines up to where the
scanner stands, and the whole table once no text is left. A file with the whole table is not changed
by a second scanner, be it one that starts now or one that is on its way. -/
theorem lines_scans {r r' : Registry} {name : String} {base? : Option Nat}
    (h : r.register name base? (byteLength text.toList) = .ok (file, r')) (expired : Bool)
    (clock : Clock) :
    ∃ s, Scanner.ofText file text expired = .ok s ∧
      (s.scans clock).2.file.lines = lineTable text (s.scans clock).2.offset ∧
      ((s.scans clock).2.rest = [] → (s.scans clock).2.file.lines = lineTable text file.size) ∧
      ∀ g : File, g.unread = file.unread → g.lines = lineTable text g.size →
        (∀ late, ∃ t, Scanner.ofText g text late = .ok t ∧
          ∀ clock', (t.scans clock').2.file = g) ∧
        ∀ f late t, Scanner.ofText f text late = .ok t → ∀ clock₀ clock₁,
          ({ (t.scans clock₀).2 with file := g }.scans clock₁).2.file = g := by
  obtain ⟨hfile, -⟩ := Registry.register_eq_ok h
  have hsize : file.size = byteLength text.toList := by rw [hfile]
  have hnew : file.Knows [] := File.knows_nil (by rw [hfile])
  obtain ⟨s, hs⟩ := Scanner.exists_ofText expired hsize
  have hlines := Scanner.lines_scans_eq hs hnew hsize clock
  refine ⟨s, hs, hlines, fun hrest => ?_, fun g hg hcomplete => ?_⟩
  · rw [hlines, Scanner.offset_scans_of_rest_eq_nil hs hrest, hsize]
  · have hgsize : g.size = byteLength text.toList := by
      rw [← hsize]
      exact (File.unread_eq_iff.1 hg).2.2.2
    have hknows : g.Knows text.toList := File.knows_of_lines_eq hgsize hcomplete
    refine ⟨fun late => ?_, fun f late t ht clock₀ clock₁ =>
      Scanner.file_scans_eq ht clock₀ clock₁ hknows⟩
    obtain ⟨t, ht⟩ := Scanner.exists_ofText late hgsize
    exact ⟨t, ht, Scanner.file_scans_ofText_eq ht hknows⟩

/-- The time ends behind the start of a comment, in which a line starts. A second scanner meets a
file that has this line as well. -/
theorem lines_scans_broken_comment :
    let text := "\ufeff'a\nb'\n/*\n*/ \n"
    let file : File := ⟨0, "q.sql", 1, 16, []⟩
    let complete : File := ⟨0, "q.sql", 1, 16, [12, 9, 6]⟩
    Registry.register .empty "q.sql" none (byteLength text.toList) = .ok (file, ⟨[file], 18⟩) ∧
      lineTable text 11 = [0, 6, 9] ∧ complete.lines = lineTable text 16 ∧
      (∃ s, Scanner.ofText file text = .ok s ∧ (s.scans [none, some 0]).2.offset = 11 ∧
        (s.scans [none, some 0]).2.file.lines = lineTable text 11) ∧
      ∃ t, Scanner.ofText complete text = .ok t ∧ ∀ clock, (t.scans clock).2.file = complete := by
  intro text file complete
  have hregister : Registry.register .empty "q.sql" none (byteLength text.toList) =
      .ok (file, ⟨[file], 18⟩) := by decide +kernel
  have hcomplete : complete.lines = lineTable text 16 := by decide +kernel
  have hoffset : (Scanner.ofText file text).map (fun s => (s.scans [none, some 0]).2.offset) =
      .ok 11 := by decide +kernel
  obtain ⟨s, hs, hlines, -, hsecond⟩ := lines_scans hregister false [none, some 0]
  obtain ⟨t, ht, hunchanged⟩ := (hsecond complete rfl hcomplete).1 false
  rw [hs] at hoffset
  have hstands : (s.scans [none, some 0]).2.offset = 11 := Except.ok.inj hoffset
  rw [hstands] at hlines
  exact ⟨hregister, by decide +kernel, hcomplete, ⟨s, hs, hstands, hlines⟩, t, ht, hunchanged⟩

end Scans

end SqlFormatter
