import SqlFormatter.Proofs.Checked.Source
import SqlFormatter.Proofs.Grammar.Progress
import SqlFormatter.Proofs.Grammar.Ranges

/-!
# SqlFormatter.Proofs.Checked.Scanner

Scans that check every slice and every position. `Checked.scan` knows its place in the text by the
offset alone, and takes slices to look at characters; `Scanner.scanBy` does the same without checks.

* A scanner is sane if it stands in its text (`Scanner.StandsIn`), and its reports name places in
  its file and are counted (`Scanner.Accounts`). Then no check of a scan fails (`Checked.scan_eq`),
  what it finds lies in the file, and the scanner after it is sane (`Scanner.Sane.scanBy`).
-/

namespace SqlFormatter

/-! ### Lexemes -/

namespace Lexeme

variable {time : Option Nat} {expired : Bool} {previous : Kind} {c : Char} {cs : List Char}

theorem readBy_fits : (readBy time expired previous c cs).Fits :=
  readBy_of_cutOff (read_fits previous c cs) fun _ => nofun

/-- If the lexeme is a malformed number, then the text in the fault is that of the lexeme and the
character behind it. -/
def Quotes (l : Lexeme) : Prop :=
  ∀ text fault, l.result = .error (.malformedNumber text fault) →
    text = String.ofList (l.text ++ l.rest.take 1)

theorem quotes_of_ok {l : Lexeme} {kind : Kind} (h : l.result = .ok kind) : l.Quotes := by
  intro text fault hfault
  rw [h] at hfault
  cases hfault

theorem number_quotes (sign digits : List Char) : (number expired sign digits).Quotes := by
  unfold number
  split
  · exact fun _ _ => nofun
  · dsimp only
    split
    · exact quotes_of_ok rfl
    · rintro text fault ⟨⟩
      rfl

theorem quoted_quotes (cs : List Char) : (quoted expired cs).Quotes := by
  unfold quoted
  split
  · exact fun _ _ => nofun
  · split
    · exact fun _ _ => nofun
    · exact quotes_of_ok rfl

theorem result_blockTail (cs : List Char) : (blockTail cs).result = .ok .comment ∨
    (blockTail cs).result = .error .unterminatedComment := by
  fun_induction blockTail cs <;> simp_all

theorem blockComment_quotes (cs : List Char) : (blockComment expired cs).Quotes := by
  unfold blockComment
  split
  · exact fun _ _ => nofun
  · rcases result_blockTail cs with h | h
    · exact quotes_of_ok h
    · intro text fault hfault
      cases h.symm.trans hfault

theorem read_quotes (previous : Kind) (c : Char) (cs : List Char) :
    (read expired previous c cs).Quotes := by
  unfold read
  split_ifs
  · exact quotes_of_ok rfl
  · exact number_quotes _ _
  · exact quoted_quotes _
  · exact quotes_of_ok rfl
  · cases cs with
    | nil => exact quotes_of_ok rfl
    | cons d ds =>
      rw [dash]
      split_ifs
      · exact quotes_of_ok rfl
      · exact number_quotes _ _
      · exact quotes_of_ok rfl
  · cases cs with
    | nil => exact quotes_of_ok rfl
    | cons d ds =>
      rw [slash]
      split_ifs
      · exact blockComment_quotes _
      · exact quotes_of_ok rfl
  · cases cs with
    | nil => exact quotes_of_ok rfl
    | cons d ds =>
      unfold symbol
      dsimp only
      split <;> exact quotes_of_ok rfl

theorem readBy_quotes : (readBy time expired previous c cs).Quotes :=
  readBy_of_cutOff (read_quotes previous c cs) fun _ _ _ => nofun

end Lexeme

/-! ### Sane scanners -/

/-- The text has the size of the file, and no position of the file is too great. -/
structure File.Holds (f : File) (source : List Char) : Prop where
  size_eq : f.size = byteLength source
  last_le : f.last ≤ maxPos

/-- The range starts and stops at positions of the file. -/
def File.Has (f : File) (r : Range) : Prop := f.Owns r.pos ∧ f.Owns r.stop

namespace Scanner

/-- What a scan finds lies in the file. -/
def FindsIn (file : File) : Except LexError Token → Prop
  | .error e => file.Owns e.pos
  | .ok t => file.Has t.range ∧ t.Fits

/-- What the scanner has reported is about places in the file, and has been counted. -/
structure Accounts (s : Scanner) (file : File) : Prop where
  owns : ∀ r ∈ s.reports, file.Owns r.pos
  counts : s.errorCount = s.reports.length

/-- The scanner stands in the text of the file, and accounts for what it has reported. -/
structure Sane (s : Scanner) (file : File) (source : List Char) : Prop where
  stands : ∃ passed, s.StandsIn file source [] passed
  accounts : s.Accounts file

section Sane

variable {s s' : Scanner} {file : File} {source seen passed : List Char} {c : Char} {l : Lexeme}
  {time : Option Nat} {t : Token}

theorem StandsIn.offset_le (h : s.StandsIn file source seen passed) (hfile : file.Holds source) :
    s.offset ≤ file.size := by
  have hlength := congrArg byteLength h.rest_eq
  rw [byteLength_append] at hlength
  rw [h.offset_eq, hfile.size_eq]
  omega

theorem StandsIn.owns_pos (h : s.StandsIn file source seen passed) (hfile : file.Holds source) :
    file.Owns s.pos := by
  have hoffset := h.offset_le hfile
  rw [h.offset_eq] at hoffset
  rw [h.pos_eq]
  exact ⟨Nat.le_add_right .., Nat.add_le_add_left hoffset _⟩

theorem StandsIn.findsIn_settle (h : s.StandsIn file source seen passed)
    (hfile : file.Holds source) (hrest : s.rest = l.text ++ l.rest) (hfits : l.Fits) :
    FindsIn file (s.settle c l).1 := by
  have hpos := h.owns_pos hfile
  have hstop : file.Owns (s.pos + byteLength l.text) :=
    s.pos_advance l.text l.rest ▸ (h.advance hrest).owns_pos hfile
  rcases hsettle : s.settle c l with ⟨e | t, s'⟩
  · rwa [← (settle_eq_error hsettle).2] at hpos
  · have htakes := settle_eq_ok hsettle
    have hlength : byteLength t.text.toList = byteLength l.text := by
      rw [htakes.text_eq, String.toList_ofList]
    refine ⟨⟨?_, ?_⟩, Token.fits_of_width fun n hn => ?_⟩
    · rwa [Token.range, htakes.pos_eq]
    · rwa [Token.range, Token.stop, htakes.pos_eq, hlength]
    · rw [hlength]
      exact hfits t.kind htakes.result_eq n hn

theorem Accounts.report (h : s.Accounts file) {r : Report} (hr : file.Owns r.pos) :
    (s.report r).Accounts file where
  owns := List.forall_mem_append.2 ⟨h.owns, List.forall_mem_singleton.2 hr⟩
  counts := by
    rw [Scanner.report, h.counts, List.length_append, List.length_singleton]

theorem Sane.settle (h : s.Sane file source) (hfile : file.Holds source)
    (hrest : s.rest = l.text ++ l.rest) : (s.settle c l).2.Sane file source := by
  obtain ⟨⟨passed, hstands⟩, haccounts⟩ := h
  refine ⟨⟨_, hstands.settle hrest⟩, ?_⟩
  have hafter : (s.advance l.text l.rest).Accounts file := ⟨haccounts.owns, haccounts.counts⟩
  have hreport : ∀ r : Report, r.pos = s.pos →
      ((s.advance l.text l.rest).report r).Accounts file :=
    fun r hr => hafter.report (hr ▸ hstands.owns_pos hfile)
  unfold Scanner.settle
  dsimp only
  split
  · exact hreport _ rfl
  · exact hafter
  · exact ⟨(hreport (.illegalCharacter s.pos c) rfl).owns, (hreport _ rfl).counts⟩
  · exact ⟨hafter.owns, hafter.counts⟩

theorem Sane.skipGap (h : s.Sane file source) : s.skipGap.Sane file source :=
  ⟨h.stands.imp' _ fun _ hstands => hstands.skipGap, h.accounts.owns, h.accounts.counts⟩

/-- A scan finds something in the file, and leaves a sane scanner. -/
theorem Sane.scanBy (h : s.Sane file source) (hfile : file.Holds source) (time : Option Nat) :
    FindsIn file (s.scanBy time).1 ∧ (s.scanBy time).2.Sane file source := by
  have hsane := h.skipGap
  obtain ⟨passed, hstands⟩ := hsane.stands
  unfold Scanner.scanBy
  dsimp only
  split
  · refine ⟨⟨⟨hstands.owns_pos hfile, hstands.owns_pos hfile⟩, ?_⟩, hsane⟩
    exact Token.fits_of_width nofun
  · next c cs hcons =>
    have hrest := hcons.trans
      (Lexeme.readBy_append time s.skipGap.expired s.skipGap.previous c cs).symm
    exact ⟨hstands.findsIn_settle hfile hrest Lexeme.readBy_fits, hsane.settle hfile hrest⟩

theorem reports_ofText {text : String} {expired : Bool} (h : ofText file text expired = .ok s) :
    s.reports = [] ∧ s.errorCount = 0 := by
  unfold ofText at h
  dsimp only at h
  split at h
  · split at h
    · cases h
      exact ⟨rfl, rfl⟩
    · cases h
      split <;> exact ⟨rfl, rfl⟩
  · cases h

/-- A scanner at the start of the text of a fresh file is sane. -/
theorem sane_ofText {text : String} {expired : Bool} (h : ofText file text expired = .ok s)
    (hlines : file.laterLines = []) : s.Sane file text.toList := by
  obtain ⟨passed, hstands, -⟩ := covers_ofText h List.nil_prefix (File.knows_nil hlines)
  obtain ⟨hreports, hcount⟩ := reports_ofText h
  refine ⟨⟨passed, hstands⟩, ?_, ?_⟩
  · rw [hreports]
    exact List.forall_mem_nil _
  · rw [hreports, hcount]
    rfl

end Sane

end Scanner

/-! ### Scans with checks -/

namespace Checked

/-- What came of a lexeme from `start` to just before `offset`. The text in the fault of a malformed
number is a slice of its own, with the character that is wrong. -/
def outcome (source : List Char) (start offset : Nat) (result : Except LexFault Kind) :
    Except Panic (Except LexFault Kind) := do
  match result with
  | .error (.malformedNumber _ fault) =>
    let text ← slice source start (← walk source offset 1)
    return .error (.malformedNumber (String.ofList text) fault)
  | _ => return result

/-- As `Scanner.settle`, with checks: of the lexeme `l` it takes the number of characters and what
came of it, and looks up to two characters ahead. -/
def settle (source : List Char) (s : Scanner) (c : Char) (l : Lexeme) :
    Except Panic (Except LexError Token × Scanner) := do
  let _ ← pos s.file s.offset
  let offset ← walk source s.offset l.text.length
  let _ ← walk source offset 2
  let text ← slice source s.offset offset
  let rest ← sliceFrom source offset
  let result ← outcome source s.offset offset l.result
  return s.settle c ⟨text, rest, result⟩

/-- As `Scanner.skipGap`, with checks. -/
def skipGap (source : List Char) (s : Scanner) : Except Panic Scanner := do
  let gap := (← sliceFrom source s.offset).takeWhile isGap
  let offset ← walk source s.offset gap.length
  return s.advance gap (← sliceFrom source offset)

/-- As `Scanner.scanBy`, with checks. -/
def scan (source : List Char) (time : Option Nat) (s : Scanner) :
    Except Panic (Except LexError Token × Scanner) := do
  let s ← skipGap source s
  match s.rest with
  | [] =>
    let pos ← pos s.file s.offset
    return (.ok (.endOfInput pos), s)
  | c :: cs => settle source s c (Lexeme.readBy time s.expired s.previous c cs)

section Scan

variable {s : Scanner} {file : File} {source seen passed : List Char} {c : Char} {l : Lexeme}
  {time : Option Nat}

theorem pos_scanner_eq (h : s.StandsIn file source seen passed) (hfile : file.Holds source) :
    pos s.file s.offset = .ok s.pos := by
  obtain ⟨-, -, hbase, hsize⟩ := File.unread_eq_iff.1 h.unread_eq
  refine pos_eq (hsize ▸ h.offset_le hfile) ?_
  rw [File.last, hbase, hsize]
  exact hfile.last_le

theorem outcome_eq (h : source = passed ++ l.text ++ l.rest) (hquotes : l.Quotes) :
    outcome source (byteLength passed) (byteLength (passed ++ l.text)) l.result = .ok l.result := by
  unfold outcome
  split
  · next text fault hfault =>
    have hslice : source = passed ++ (l.text ++ l.rest.take 1) ++ l.rest.drop 1 := by
      rw [h]
      simp only [List.append_assoc, List.take_append_drop]
    rw [walk_eq h, ok_bind, List.append_assoc, slice_eq hslice, ok_bind, hfault,
      hquotes text fault hfault]
    rfl
  · rfl

theorem settle_eq (h : s.StandsIn file source seen passed) (hfile : file.Holds source)
    (hrest : s.rest = l.text ++ l.rest) (hquotes : l.Quotes) :
    settle source s c l = .ok (s.settle c l) := by
  have hsource : source = passed ++ (l.text ++ l.rest) := by rw [← hrest, h.rest_eq]
  have hbehind : source = passed ++ l.text ++ l.rest := by rw [hsource, List.append_assoc]
  have hoffset : walk source s.offset l.text.length = .ok (byteLength (passed ++ l.text)) := by
    rw [h.offset_eq, walk_eq hsource, List.take_left]
  rw [settle, pos_scanner_eq h hfile, ok_bind, hoffset, ok_bind, walk_eq hbehind, ok_bind,
    h.offset_eq, slice_eq hbehind, ok_bind, sliceFrom_eq hbehind, ok_bind,
    outcome_eq hbehind hquotes]
  rfl

theorem skipGap_eq (h : s.StandsIn file source seen passed) :
    skipGap source s = .ok s.skipGap := by
  have hsplit := List.takeWhile_append_dropWhile (p := isGap) (l := s.rest)
  have hsource : source = passed ++ (s.rest.takeWhile isGap ++ s.rest.dropWhile isGap) := by
    rw [hsplit, h.rest_eq]
  have hwalk : walk source (byteLength passed) (s.rest.takeWhile isGap).length =
      .ok (byteLength (passed ++ s.rest.takeWhile isGap)) := by
    rw [walk_eq hsource, List.take_left]
  rw [skipGap, h.offset_eq, sliceFrom_eq h.rest_eq.symm, ok_bind]
  dsimp only
  rw [hwalk, ok_bind, sliceFrom_eq (hsource.trans (List.append_assoc ..).symm)]
  rfl

/-- No check of a scan fails. -/
theorem scan_eq (h : s.StandsIn file source seen passed) (hfile : file.Holds source) :
    scan source time s = .ok (s.scanBy time) := by
  have hgap := h.skipGap
  rw [scan, skipGap_eq h, ok_bind]
  unfold Scanner.scanBy
  dsimp only
  cases hcons : s.skipGap.rest with
  | nil =>
    dsimp only
    rw [pos_scanner_eq hgap hfile]
    rfl
  | cons c cs =>
    exact settle_eq hgap hfile (hcons.trans (Lexeme.readBy_append ..).symm) Lexeme.readBy_quotes

end Scan

end Checked

end SqlFormatter
