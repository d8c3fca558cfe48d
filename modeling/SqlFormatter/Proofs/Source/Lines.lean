import Mathlib.Data.List.Induction
import SqlFormatter.Proofs.Token.Lossless

/-!
# SqlFormatter.Proofs.Source.Lines

The lines of a file against those of its text.

* `File.Knows f read`: the file knows the line starts in `read`, the front of its text. It can be
  read on from anywhere in that front (`File.Knows.addLines`), because taking note of what is known
  already changes nothing.
* `locationIn` is the place of a byte as a reader of the text counts it. A file that knows the line
  starts up to the byte gives just that place (`File.locateOffset_of_knows`).
-/

namespace SqlFormatter

/-! ### Line starts of a text -/

section LineStarts

variable {k start : Nat} {cs : List Char}

theorem bounds_of_mem_lineStarts (h : k ∈ lineStarts start cs) :
    start < k ∧ k ≤ start + byteLength cs := by
  induction cs generalizing start with
  | nil => cases h
  | cons c cs ih =>
    have hsize := c.utf8Size_pos
    have hrec := @ih (start + c.utf8Size)
    rw [byteLength_cons]
    rw [lineStarts] at h
    split at h
    · rcases List.mem_cons.1 h with rfl | h
      · omega
      · have := hrec h
        omega
    · have := hrec h
      omega

theorem pairwise_lineStarts (start : Nat) (cs : List Char) :
    (lineStarts start cs).Pairwise (· < ·) := by
  induction cs generalizing start with
  | nil => exact .nil
  | cons c cs ih =>
    rw [lineStarts]
    split
    · exact List.pairwise_cons.2 ⟨fun k hk => (bounds_of_mem_lineStarts hk).1, ih _⟩
    · exact ih _

end LineStarts

namespace File

variable {f : File}

@[simp] theorem name_addLines (f : File) (offsets : List Nat) :
    (f.addLines offsets).name = f.name := by
  induction offsets generalizing f with
  | nil => rfl
  | cons o os ih => exact (ih _).trans (f.name_addLine o)

@[simp] theorem size_addLines (f : File) (offsets : List Nat) :
    (f.addLines offsets).size = f.size := by
  induction offsets generalizing f with
  | nil => rfl
  | cons o os ih => exact (ih _).trans (f.size_addLine o)

@[simp] theorem id_addLines (f : File) (offsets : List Nat) : (f.addLines offsets).id = f.id := by
  induction offsets generalizing f with
  | nil => rfl
  | cons o os ih => exact (ih _).trans (f.id_addLine o)

/-- The file as it was registered, with no line known but the first. -/
def unread (f : File) : File := { f with laterLines := [] }

theorem unread_eq_iff {f g : File} :
    g.unread = f.unread ↔ g.id = f.id ∧ g.name = f.name ∧ g.base = f.base ∧ g.size = f.size := by
  cases f
  cases g
  simp [unread]

@[simp] theorem unread_addLines (f : File) (offsets : List Nat) :
    (f.addLines offsets).unread = f.unread :=
  unread_eq_iff.2 ⟨by simp, by simp, by simp, by simp⟩

/-- Of increasing offsets those are taken that are beyond the last line known, and inside the
file. -/
theorem laterLines_addLines (f : File) {offsets : List Nat} (h : offsets.Pairwise (· < ·)) :
    (f.addLines offsets).laterLines.reverse =
      f.laterLines.reverse ++ offsets.filter fun k => f.lastLine < k && k < f.size := by
  induction offsets generalizing f with
  | nil => rw [List.filter_nil, List.append_nil]; rfl
  | cons o os ih =>
    obtain ⟨hfirst, hos⟩ := List.pairwise_cons.1 h
    have hrec := ih (f.addLine o) hos
    rw [size_addLine] at hrec
    refine Eq.trans hrec ?_
    by_cases ho : f.lastLine < o ∧ o < f.size
    · have hadd : f.addLine o = { f with laterLines := o :: f.laterLines } := if_pos ho
      have hkeep : (os.filter fun k => o < k && k < f.size) =
          os.filter fun k => f.lastLine < k && k < f.size := by
        refine List.filter_congr fun k hk => ?_
        have hlt := hfirst k hk
        have hlt' : f.lastLine < k := by omega
        simp [hlt, hlt']
      rw [hadd, List.filter_cons_of_pos (by simpa using ho), List.reverse_cons, List.append_assoc,
        ← hkeep]
      rfl
    · rw [show f.addLine o = f from if_neg ho, List.filter_cons_of_neg (by simpa using ho)]

theorem getLast?_reverse_laterLines (f : File) :
    f.laterLines.reverse.getLast?.getD 0 = f.lastLine := by
  rw [List.getLast?_reverse, lastLine, List.headD_eq_head?_getD]

/-! ### What a file knows -/

/-- The lines that the file knows are those that start in `read`, the front of its text. Behind the
last byte of the file no line starts. -/
def Knows (f : File) (read : List Char) : Prop :=
  f.laterLines.reverse = (lineStarts 0 read).filter (· < f.size)

theorem knows_nil (h : f.laterLines = []) : f.Knows [] := by
  rw [Knows, h]
  rfl

/-- The last line known is not before any known line. -/
theorem Knows.le_lastLine {read : List Char} (h : f.Knows read) {k : Nat}
    (hk : k ∈ lineStarts 0 read) (hsize : k < f.size) : k ≤ f.lastLine := by
  have hmem : k ∈ f.laterLines.reverse := h ▸ List.mem_filter.2 ⟨hk, by simpa using hsize⟩
  have hordered : f.laterLines.reverse.Pairwise (· < ·) :=
    h ▸ (pairwise_lineStarts 0 read).filter _
  rw [← getLast?_reverse_laterLines]
  rcases List.eq_nil_or_concat f.laterLines.reverse with hnil | ⟨ks, last, hlast⟩
  · rw [hnil] at hmem
    cases hmem
  · rw [List.concat_eq_append] at hlast
    rw [hlast, List.getLast?_concat, Option.getD_some]
    rw [hlast, List.mem_append, List.mem_singleton] at hmem
    rw [hlast] at hordered
    rcases hmem with hmem | rfl
    · exact Nat.le_of_lt ((List.pairwise_append.1 hordered).2.2 k hmem last List.mem_cons_self)
    · exact Nat.le_refl _

theorem Knows.lastLine_le {read : List Char} (h : f.Knows read) :
    f.lastLine ≤ byteLength read := by
  rw [← getLast?_reverse_laterLines]
  cases hlast : f.laterLines.reverse.getLast? with
  | none => exact Nat.zero_le _
  | some k =>
    have hmem : k ∈ f.laterLines.reverse := List.mem_of_getLast? hlast
    rw [h] at hmem
    have hle := (bounds_of_mem_lineStarts (List.mem_filter.1 hmem).1).2
    rw [Option.getD_some]
    omega

/-- A file that knows the lines in `known`, and is read on behind a front of that, knows the lines
up to where it has been read. -/
theorem Knows.addLines {text known passed more : List Char} (h : f.Knows known)
    (hpassed : passed <+: known) (hknown : known <+: text) (hmore : passed ++ more <+: text) :
    ∃ known', known <+: known' ∧ passed ++ more <+: known' ∧ known' <+: text ∧
      (f.addLines (lineStarts (byteLength passed) more)).Knows known' := by
  have hlines := f.laterLines_addLines (pairwise_lineStarts (byteLength passed) more)
  have hold : ∀ read, passed ++ read <+: known → ((lineStarts (byteLength passed) read).filter
      fun k => f.lastLine < k && k < f.size) = [] := by
    rintro read ⟨others, rfl⟩
    refine List.filter_eq_nil_iff.2 fun k hk => ?_
    have hmem : k ∈ lineStarts 0 (passed ++ read ++ others) := by
      rw [Scanner.lineStarts_append, Scanner.lineStarts_append, Nat.zero_add]
      exact List.mem_append_left _ (List.mem_append_right _ hk)
    have hle := h.le_lastLine hmem
    simp only [Bool.and_eq_true, decide_eq_true_eq, not_and]
    omega
  rcases List.prefix_or_prefix_of_prefix hmore hknown with hprefix | ⟨others, hothers⟩
  · -- Nothing new is read.
    refine ⟨known, List.prefix_refl _, hprefix, hknown, ?_⟩
    rw [Knows, hlines, hold more hprefix, List.append_nil, size_addLines]
    exact h
  · obtain ⟨read, rfl⟩ := hpassed
    obtain rfl : more = read ++ others := by simpa using hothers.symm
    rw [← List.append_assoc] at hmore ⊢
    refine ⟨_, List.prefix_append .., List.prefix_refl _, hmore, ?_⟩
    have hnew : ((lineStarts (byteLength (passed ++ read)) others).filter
        fun k => f.lastLine < k && k < f.size) =
          (lineStarts (byteLength (passed ++ read)) others).filter (· < f.size) := by
      refine List.filter_congr fun k hk => ?_
      have hlt := (bounds_of_mem_lineStarts hk).1
      have hle := h.lastLine_le
      have hlt' : f.lastLine < k := by omega
      simp [hlt']
    rw [Knows, hlines, size_addLines, Scanner.lineStarts_append, List.filter_append,
      hold read (List.prefix_refl _), List.nil_append, ← byteLength_append, hnew, h,
      Scanner.lineStarts_append 0 (passed ++ read), List.filter_append, Nat.zero_add]

end File

/-! ### The place of a byte -/

/-- The byte of a newline. -/
def newlineByte : UInt8 := 0x0A

/-- The place of the byte at offset `o` of the text, where every newline in front of it ends a
line. -/
def countedLocation (name text : String) (o : Nat) : Location where
  file := name
  line := ((encodeUtf8 text).take o).count newlineByte + 1
  column := (((encodeUtf8 text).take o).reverse.takeWhile (· != newlineByte)).length + 1

/-- The place of the byte at offset `o` of the text. At the end of a text a newline ends no line:
the place behind it is the next one of its line. -/
def locationIn (name text : String) (o : Nat) : Location :=
  if o = (encodeUtf8 text).length ∧ (encodeUtf8 text).getLast? = some newlineByte then
    let newline := countedLocation name text (o - 1)
    { newline with column := newline.column + 1 }
  else countedLocation name text o

section Bytes

theorem utf8EncodeChar_newline : String.utf8EncodeChar '\n' = [newlineByte] := by decide

/-- Only the newline has its byte. -/
theorem newlineByte_notMem {c : Char} (hc : c ≠ '\n') : newlineByte ∉ String.utf8EncodeChar c := by
  have hval : c.val.toNat ≠ 10 := fun h => hc (Char.ext (UInt32.toNat_inj.1 h))
  have hbyte : ∀ n : Nat, n % 256 ≠ 10 → newlineByte ≠ UInt8.ofNat n := by
    intro n hn h
    have htoNat := congrArg UInt8.toNat h
    rw [UInt8.toNat_ofNat'] at htoNat
    exact hn htoNat.symm
  unfold String.utf8EncodeChar
  dsimp only
  -- All bytes of a character beyond ASCII are from 0x80 on.
  split_ifs <;> simp only [List.mem_cons, List.not_mem_nil, or_false, not_or]
  · exact hbyte _ (by omega)
  · exact ⟨hbyte _ (by omega), hbyte _ (by omega)⟩
  · exact ⟨hbyte _ (by omega), hbyte _ (by omega), hbyte _ (by omega)⟩
  · exact ⟨hbyte _ (by omega), hbyte _ (by omega), hbyte _ (by omega), hbyte _ (by omega)⟩

theorem encodeUtf8_ofList_singleton (c : Char) :
    encodeUtf8 (String.ofList [c]) = String.utf8EncodeChar c := by
  rw [encodeUtf8_eq_flatMap, String.toList_ofList, List.flatMap_cons, List.flatMap_nil,
    List.append_nil]

/-- There are as many newline bytes as lines that start. -/
theorem count_newlineByte (start : Nat) (cs : List Char) :
    (encodeUtf8 (String.ofList cs)).count newlineByte = (lineStarts start cs).length := by
  induction cs generalizing start with
  | nil => rw [encodeUtf8_eq_flatMap, String.toList_ofList]; rfl
  | cons c cs ih =>
    rw [← List.singleton_append, encodeUtf8_ofList_append, List.count_append,
      encodeUtf8_ofList_singleton, ih (start + c.utf8Size), List.singleton_append, lineStarts]
    by_cases hc : c = '\n'
    · rw [if_pos hc, hc, utf8EncodeChar_newline, List.length_cons, List.count_singleton_self,
        Nat.add_comm]
    · rw [if_neg hc, List.count_eq_zero_of_not_mem (newlineByte_notMem hc), Nat.zero_add]

/-- The bytes behind the last newline are those behind the last line start. -/
theorem length_takeWhile_newlineByte (cs : List Char) :
    ((encodeUtf8 (String.ofList cs)).reverse.takeWhile (· != newlineByte)).length +
      (lineStarts 0 cs).getLast?.getD 0 = byteLength cs := by
  induction cs using List.reverseRecOn with
  | nil => rw [encodeUtf8_eq_flatMap, String.toList_ofList]; rfl
  | append_singleton cs c ih =>
    rw [encodeUtf8_ofList_append, List.reverse_append, encodeUtf8_ofList_singleton,
      Scanner.lineStarts_append, byteLength_append, lineStarts]
    by_cases hc : c = '\n'
    · subst hc
      rw [if_pos rfl, utf8EncodeChar_newline, lineStarts, List.getLast?_concat]
      simp [byteLength]
    · have hbytes : ∀ b ∈ (String.utf8EncodeChar c).reverse, (b != newlineByte) = true := by
        intro b hb
        rw [List.mem_reverse] at hb
        exact bne_iff_ne.2 fun h => newlineByte_notMem hc (h ▸ hb)
      rw [if_neg hc, List.takeWhile_append_of_pos hbytes, List.length_append, List.length_reverse,
        String.length_utf8EncodeChar, lineStarts, List.append_nil, Nat.add_assoc, ih,
        byteLength_cons, byteLength_nil]
      omega

/-- A text that ends with the byte of a newline ends with one. -/
theorem getLast?_eq_newlineByte_iff {cs : List Char} :
    (encodeUtf8 (String.ofList cs)).getLast? = some newlineByte ↔ ∃ init, cs = init ++ ['\n'] := by
  constructor
  · intro h
    induction cs using List.reverseRecOn with
    | nil =>
      rw [encodeUtf8_eq_flatMap, String.toList_ofList] at h
      cases h
    | append_singleton init c =>
      have hlength := String.length_utf8EncodeChar (c := c)
      have hsize := c.utf8Size_pos
      rw [encodeUtf8_ofList_append, encodeUtf8_ofList_singleton,
        List.getLast?_append_of_ne_nil _ (List.ne_nil_of_length_pos (by omega))] at h
      by_cases hc : c = '\n'
      · exact ⟨init, by rw [hc]⟩
      · exact absurd (List.mem_of_getLast? h) (newlineByte_notMem hc)
  · rintro ⟨init, rfl⟩
    rw [encodeUtf8_ofList_append, encodeUtf8_ofList_singleton, utf8EncodeChar_newline,
      List.getLast?_concat]

theorem lineStarts_append_newline (cs : List Char) :
    lineStarts 0 (cs ++ ['\n']) = lineStarts 0 cs ++ [byteLength cs + 1] := by
  rw [Scanner.lineStarts_append, Nat.zero_add]
  rfl

/-- A line starts at the end of a text only behind a newline. -/
theorem exists_of_byteLength_mem_lineStarts {cs : List Char}
    (h : byteLength cs ∈ lineStarts 0 cs) : ∃ init, cs = init ++ ['\n'] := by
  induction cs using List.reverseRecOn with
  | nil => cases h
  | append_singleton init c =>
    by_cases hc : c = '\n'
    · exact ⟨init, by rw [hc]⟩
    · rw [Scanner.lineStarts_append, lineStarts, if_neg hc, lineStarts, List.append_nil] at h
      have hbounds := bounds_of_mem_lineStarts h
      have hsize := c.utf8Size_pos
      rw [byteLength_append, byteLength_cons, byteLength_nil] at hbounds
      omega

variable {text : String} {before after : List Char}

/-- The place of a byte at which a character starts, by the characters in front of it. -/
theorem countedLocation_of_append (name : String) (h : text.toList = before ++ after) :
    countedLocation name text (byteLength before) =
      ⟨name, (lineStarts 0 before).length + 1,
        byteLength before - (lineStarts 0 before).getLast?.getD 0 + 1⟩ := by
  have htake : (encodeUtf8 text).take (byteLength before) = encodeUtf8 (String.ofList before) := by
    rw [← String.ofList_toList (s := text), h, encodeUtf8_ofList_append,
      ← length_encodeUtf8_ofList before, List.take_left]
  have hlast := length_takeWhile_newlineByte before
  rw [countedLocation, htake, count_newlineByte 0, Location.mk.injEq]
  exact ⟨rfl, rfl, by omega⟩

end Bytes

/-! ### What a file tells -/

namespace File

variable {f : File} {text : String} {known before after : List Char}

/-- The place of a byte, by the lines known that start at it or in front of it. -/
theorem locateOffset_eq (f : File) (o : Nat) :
    f.locateOffset o = ⟨f.name, (f.laterLines.reverse.filter (· ≤ o)).length + 1,
      o - (f.laterLines.reverse.filter (· ≤ o)).getLast?.getD 0 + 1⟩ := by
  rw [locateOffset, List.filter_reverse, List.length_reverse, List.getLast?_reverse,
    List.head?_filter, List.countP_eq_length_filter]

/-- Of the lines that start in `known`, those that start in `before`. -/
theorem Knows.filter_le (h : f.Knows known) (hbefore : before <+: known) :
    f.laterLines.reverse.filter (· ≤ byteLength before) =
      (lineStarts 0 before).filter (· < f.size) := by
  obtain ⟨more, rfl⟩ := hbefore
  have hearly : ((lineStarts 0 before).filter fun k => k ≤ byteLength before && k < f.size) =
      (lineStarts 0 before).filter (· < f.size) := by
    refine List.filter_congr fun k hk => ?_
    have hle : k ≤ byteLength before := by
      have hbounds := bounds_of_mem_lineStarts hk
      omega
    simp [hle]
  have hlate : ((lineStarts (0 + byteLength before) more).filter
      fun k => k ≤ byteLength before && k < f.size) = [] := by
    refine List.filter_eq_nil_iff.2 fun k hk => ?_
    have hbounds := bounds_of_mem_lineStarts hk
    simp only [Bool.and_eq_true, decide_eq_true_eq, not_and]
    omega
  rw [h, List.filter_filter, Scanner.lineStarts_append, List.filter_append, hearly, hlate,
    List.append_nil]

/-- If all lines up to a byte start inside of the file, the file counts them as they are. -/
theorem Knows.locateOffset_eq_counted (h : f.Knows known) (hbefore : before <+: known)
    (htext : text.toList = before ++ after) (hinside : ∀ k ∈ lineStarts 0 before, k < f.size) :
    f.locateOffset (byteLength before) = countedLocation f.name text (byteLength before) := by
  rw [locateOffset_eq, h.filter_le hbefore,
    List.filter_eq_self.2 fun k hk => decide_eq_true (hinside k hk),
    countedLocation_of_append f.name htext]

/-- The line behind a newline that ends the file is not known. -/
theorem Knows.locateOffset_behind_newline (h : f.Knows known) (hbefore : before ++ ['\n'] <+: known)
    (hsize : f.size = byteLength (before ++ ['\n'])) :
    f.locateOffset (byteLength before + 1) =
      ⟨f.name, (lineStarts 0 before).length + 1,
        byteLength before + 1 - (lineStarts 0 before).getLast?.getD 0 + 1⟩ := by
  have hfull : byteLength (before ++ ['\n']) = byteLength before + 1 := by
    rw [byteLength_append]
    rfl
  have hin : ∀ k ∈ lineStarts 0 before, decide (k < f.size) = true := fun k hk => by
    have hbounds := bounds_of_mem_lineStarts hk
    exact decide_eq_true (by omega)
  have hout : [byteLength before + 1].filter (· < f.size) = [] := by
    have hnot : ¬byteLength before + 1 < f.size := by omega
    simp [hnot]
  rw [← hfull, locateOffset_eq, h.filter_le hbefore, lineStarts_append_newline, List.filter_append,
    List.filter_eq_self.2 hin, hout, List.append_nil]

/-- A file that knows the lines up to a byte tells its place. -/
theorem locateOffset_of_knows (h : f.Knows known) (hbefore : before <+: known)
    (hknown : known <+: text.toList) (hsize : f.size = byteLength text.toList) :
    f.locateOffset (byteLength before) = locationIn f.name text (byteLength before) := by
  obtain ⟨after, htext⟩ := hbefore.trans hknown
  have hlength : (encodeUtf8 text).length = byteLength text.toList := by
    rw [← length_encodeUtf8_ofList, String.ofList_toList]
  have hsplit : byteLength text.toList = byteLength before + byteLength after := by
    rw [← htext, byteLength_append]
  have hwhole : byteLength before = byteLength text.toList → text.toList = before := by
    intro hend
    cases after with
    | nil => rw [← htext, List.append_nil]
    | cons c cs =>
      have hpos := byteLength_pos (List.cons_ne_nil c cs)
      omega
  rw [locationIn, hlength]
  split
  · next hend =>
    obtain ⟨hend, hlast⟩ := hend
    have htext' := hwhole hend
    rw [← String.ofList_toList (s := text), htext', getLast?_eq_newlineByte_iff] at hlast
    obtain ⟨init, rfl⟩ := hlast
    have hfull : byteLength (init ++ ['\n']) = byteLength init + 1 := by
      rw [byteLength_append]
      rfl
    have hcolumn := length_takeWhile_newlineByte init
    rw [hfull, h.locateOffset_behind_newline hbefore (htext' ▸ hsize), Nat.add_sub_cancel,
      countedLocation_of_append f.name htext', Location.mk.injEq]
    exact ⟨rfl, rfl, by dsimp only; omega⟩
  · next hend =>
    refine h.locateOffset_eq_counted hbefore htext.symm fun k hk => ?_
    have hbounds := bounds_of_mem_lineStarts hk
    by_contra hout
    obtain rfl : k = byteLength before := by omega
    have hend' : byteLength before = byteLength text.toList := by omega
    refine hend ⟨hend', ?_⟩
    rw [← String.ofList_toList (s := text), hwhole hend', getLast?_eq_newlineByte_iff]
    exact exists_of_byteLength_mem_lineStarts hk

end File

end SqlFormatter
