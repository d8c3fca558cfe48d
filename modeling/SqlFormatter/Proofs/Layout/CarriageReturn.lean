import SqlFormatter.Proofs.Layout.Confluence

/-!
# SqlFormatter.Proofs.Layout.CarriageReturn

Layouts whose lines end with a carriage return and a newline.

A comment without an end marker ends in front of the newline, so it takes in the return that ends
its line (`Comment.textBefore`). The rest of the statement is read as it was. So the layout is read
as a statement again, but each comment of this kind has grown by the return, and the layout of what
was read is longer by as much (`byteLength_join_textBefore`). `parseText_layout_carriage_return` is
the main result.
-/

namespace SqlFormatter

namespace Statement

/-- The comments of the statement, whatever their groups. -/
def allComments (s : Statement) : List Comment := s.comments.flatMap CommentGroup.toList

/-- How many comments have no end markers. -/
def lineComments (s : Statement) : Nat := s.allComments.countP (! ·.isBlock)

theorem commentTexts_eq (s : Statement) : s.commentTexts = s.allComments.map Comment.text := by
  rw [commentTexts, allComments, List.map_flatMap]

theorem commentTextsBefore_eq (gap : List Char) (s : Statement) :
    s.commentTextsBefore gap = s.allComments.map (Comment.textBefore gap) := by
  rw [commentTextsBefore, allComments, List.map_flatMap]

/-- A gap is seen in the comments without end markers, and in no others. -/
theorem commentTextsBefore_eq_iff {gap : List Char} (hgap : gap ≠ []) {s : Statement} :
    s.commentTextsBefore gap = s.commentTexts ↔ s.lineComments = 0 := by
  have htext : ∀ c : Comment, c.textBefore gap = c.text ↔ ¬(! c.isBlock) := by
    intro c
    unfold Comment.textBefore
    cases c.isBlock with
    | true => simp
    | false => simp [← String.toList_inj, hgap]
  rw [commentTextsBefore_eq, commentTexts_eq, List.map_inj_left, lineComments, List.countP_eq_zero]
  simp only [htext]

/-- Each comment without an end marker is longer by the gap. -/
theorem byteLength_join_textBefore (gap : List Char) (newline : String) (comments : List Comment) :
    byteLength (String.join ((comments.map (Comment.textBefore gap)).map (· ++ newline))).toList =
      byteLength (String.join ((comments.map Comment.text).map (· ++ newline))).toList +
        comments.countP (! ·.isBlock) * byteLength gap := by
  induction comments with
  | nil => simp
  | cons c cs ih =>
    have htext : byteLength (c.textBefore gap).toList =
        byteLength c.text.toList + if c.isBlock then 0 else byteLength gap := by
      unfold Comment.textBefore
      cases c.isBlock <;> simp
    simp only [List.map_cons, String.join_cons, String.toList_append, byteLength_append, ih, htext,
      List.countP_cons]
    cases c.isBlock <;> simp [Nat.add_mul] <;> omega

/-- The layout of a statement that grew by the gaps behind its comments, and did not change but for
that. -/
theorem byteLength_layout_of_textBefore {s s' : Statement} {gap : List Char}
    (hnormal : s'.normalForm.1 = s.normalForm.1)
    (hcomments : s'.commentTexts = s.commentTextsBefore gap) (style : Style) :
    byteLength (s'.layout style).toList =
      byteLength (s.layout style).toList + s.lineComments * byteLength gap := by
  have hcomments : s'.normalForm.2 = s.allComments.map (Comment.textBefore gap) :=
    hcomments.trans (s.commentTextsBefore_eq gap)
  have hold : s.normalForm.2 = s.allComments.map Comment.text := s.commentTexts_eq
  rw [s'.layout_eq_normalForm, s.layout_eq_normalForm, hnormal, hcomments, hold,
    String.toList_append, String.toList_append, byteLength_append, byteLength_append,
    byteLength_join_textBefore, lineComments]
  omega

end Statement

/-- Where a carriage return stands before each newline, the layout of a statement that was read from
a text is read as that statement, up to positions and signs that merge with their numbers, but a
comment without an end marker takes in the return that ends its line. The comments are the same, and
laid out again the statement gives the same text, if and only if there is no such comment; each of
them makes the text a byte longer. -/
theorem parseText_layout_carriage_return {file file' : File} {text : String} {expired : Bool}
    {s : Statement} (h : parseText file text expired = .ok (.ok s, file')) {style : Style}
    (hnewline : style.newline = "\r\n") {target : File}
    (hsize : target.size = byteLength (s.layout style).toList) :
    ∃ s' target', parseText target (s.layout style) = .ok (.ok s', target') ∧
      s'.normalForm.1 = s.normalForm.1 ∧ s'.commentTexts = s.commentTextsBefore ['\r'] ∧
      (s'.commentTexts = s.commentTexts ↔ s.lineComments = 0) ∧
      (s'.layout style = s.layout style ↔ s.lineComments = 0) ∧
      byteLength (s'.layout style).toList =
        byteLength (s.layout style).toList + s.lineComments := by
  have hlines : style.EndsLines ['\r'] :=
    ⟨congrArg String.toList hnewline, List.forall_mem_singleton.2 (by decide)⟩
  obtain ⟨hcanonical, -⟩ := canonical_of_parseText h
  obtain ⟨s', target', htarget, hshape, htexts⟩ :=
    written_of_parseText_layout_of_endsLines h hlines hsize
  have hnormal := Statement.normalForm_fst_of_written hcanonical hshape
  have hlength := Statement.byteLength_layout_of_textBefore hnormal htexts style
  have hsame : s'.commentTexts = s.commentTexts ↔ s.lineComments = 0 :=
    htexts ▸ Statement.commentTextsBefore_eq_iff (by decide)
  refine ⟨s', target', htarget, hnormal, htexts, hsame, ⟨fun hlayout => ?_, fun hnone => ?_⟩, ?_⟩
  · -- The lengths differ by the number of these comments.
    rw [hlayout] at hlength
    have hbytes : byteLength ['\r'] = 1 := by decide
    rw [hbytes] at hlength
    omega
  · have hforms : s'.normalForm = s.normalForm := Prod.ext hnormal (hsame.2 hnone)
    rw [s'.layout_eq_normalForm, hforms, ← s.layout_eq_normalForm]
  · have hbytes : byteLength ['\r'] = 1 := by decide
    rw [hlength, hbytes, Nat.mul_one]

/-- A line for each of two comments, of which one has an end marker. -/
theorem parseText_line_comment :
    ∃ s file', parseText ⟨0, "q.sql", 1, 28, []⟩ "-- c\n/* d */\nSELECT 1 FROM t" =
      .ok (.ok s, file') ∧ s.lineComments = 1 :=
  exists_statement (by decide +kernel)

theorem parseText_layout_carriage_return_line_comment :
    ∃ s file' s' target',
      parseText ⟨0, "q.sql", 1, 28, []⟩ "-- c\n/* d */\nSELECT 1 FROM t" = .ok (.ok s, file') ∧
      parseText ⟨0, "q.sql", 1, byteLength (s.layout { newline := "\r\n" }).toList, []⟩
        (s.layout { newline := "\r\n" }) = .ok (.ok s', target') ∧
      s'.commentTexts = s.commentTextsBefore ['\r'] ∧
      byteLength (s'.layout { newline := "\r\n" }).toList =
        byteLength (s.layout { newline := "\r\n" }).toList + 1 := by
  obtain ⟨s, file', hfile, hcomments⟩ := parseText_line_comment
  have hsize : ∀ n, (File.mk 0 "q.sql" 1 n []).size = n := fun _ => rfl
  have hnewline : Style.newline { newline := "\r\n" } = "\r\n" := rfl
  obtain ⟨s', target', htarget, -, htexts, -, -, hlength⟩ :=
    parseText_layout_carriage_return hfile hnewline (hsize _)
  exact ⟨s, file', s', target', hfile, htarget, htexts, hcomments ▸ hlength⟩

/-- The return becomes part of the comment, and the second layout has one more. -/
theorem layout_grows_line_comment :
    ∃ s file' s' target',
      parseText ⟨0, "q.sql", 1, 20, []⟩ "-- c\nSELECT 1 FROM t" = .ok (.ok s, file') ∧
      s.layout { newline := "\r\n" } = "-- c\r\nSELECT\r\n    1\r\nFROM\r\n    t\r\n;" ∧
      parseText ⟨1, "again.sql", 22, 35, []⟩ "-- c\r\nSELECT\r\n    1\r\nFROM\r\n    t\r\n;" =
        .ok (.ok s', target') ∧
      s'.layout { newline := "\r\n" } = "-- c\r\r\nSELECT\r\n    1\r\nFROM\r\n    t\r\n;" ∧
      s.commentTexts = ["-- c"] ∧ s'.commentTexts = ["-- c\r"] := by
  obtain ⟨s, file', hfile, hs⟩ : ∃ s file',
      parseText ⟨0, "q.sql", 1, 20, []⟩ "-- c\nSELECT 1 FROM t" = .ok (.ok s, file') ∧
      (s.commentTexts, s.layout { newline := "\r\n" }) =
        (["-- c"], "-- c\r\nSELECT\r\n    1\r\nFROM\r\n    t\r\n;") :=
    exists_statement (by decide +kernel)
  obtain ⟨s', target', htarget, hs'⟩ : ∃ s' target',
      parseText ⟨1, "again.sql", 22, 35, []⟩ "-- c\r\nSELECT\r\n    1\r\nFROM\r\n    t\r\n;" =
        .ok (.ok s', target') ∧
      (s'.commentTexts, s'.layout { newline := "\r\n" }) =
        (["-- c\r"], "-- c\r\r\nSELECT\r\n    1\r\nFROM\r\n    t\r\n;") :=
    exists_statement (by decide +kernel)
  obtain ⟨htexts, hlayout⟩ := Prod.mk.inj hs
  obtain ⟨htexts', hlayout'⟩ := Prod.mk.inj hs'
  exact ⟨s, file', s', target', hfile, hlayout, htarget, hlayout', htexts, htexts'⟩

end SqlFormatter
