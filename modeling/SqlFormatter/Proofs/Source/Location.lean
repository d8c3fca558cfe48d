import Mathlib.Data.Prod.Lex
import SqlFormatter.Proofs.Checked.Source

/-!
# SqlFormatter.Proofs.Source.Location

Positions of a file as lines and columns, whatever line starts were noted in it, and in which order.

The invariant is `File.Lined`: the line starts are in order, and all but the first lie inside of the
file. An offset that does not come behind all others, or is not inside, is not noted, so one note
keeps the invariant (`Lined.addLine`) and so do all of them (`Lined.addLines`). From it follow where
the search for a line ends (`Lined.marks`) and that two offsets are in the order of their lines and
columns (`Marks.lex`). `File.Lawful` is what a user of a file sees of that.
-/

namespace SqlFormatter

namespace File

variable {f : File} {o o' p : Nat} {l l' : Location}

/-! ### The line starts -/

/-- The lines start in order, and all but the first start inside of the file. -/
structure Lined (f : File) : Prop where
  increasing : f.lines.Pairwise (· < ·)
  inside : ∀ k ∈ f.lines.tail, k < f.size

theorem getLast?_lines (f : File) : f.lines.getLast? = some f.lastLine := by
  rw [lines, List.getLast?_cons, getLast?_reverse_laterLines]

theorem lines_addLine (f : File) (o : Nat) :
    (f.addLine o).lines = if f.lastLine < o ∧ o < f.size then f.lines ++ [o] else f.lines := by
  unfold addLine
  split
  · simp [lines]
  · rfl

/-- No known line starts behind the last one. -/
theorem Lined.le_lastLine (h : f.Lined) : ∀ k ∈ f.lines, k ≤ f.lastLine := by
  intro k hk
  obtain ⟨front, hfront⟩ := List.getLast?_eq_some_iff.1 f.getLast?_lines
  have horder := h.increasing
  rw [hfront] at hk horder
  rw [List.mem_append, List.mem_singleton] at hk
  rcases hk with hk | rfl
  · exact Nat.le_of_lt ((List.pairwise_append.1 horder).2.2 k hk _ (List.mem_singleton_self _))
  · exact Nat.le_refl _

theorem lined_unread (f : File) : f.unread.Lined where
  increasing := List.pairwise_singleton ..
  inside := nofun

/-- A note of a line start keeps the others in order, because it is only taken behind them. -/
theorem Lined.addLine (h : f.Lined) (o : Nat) : (f.addLine o).Lined := by
  have hlines := f.lines_addLine o
  split at hlines
  · next hnoted =>
    obtain ⟨hbehind, hinside⟩ := hnoted
    constructor
    · rw [hlines]
      refine List.pairwise_append.2 ⟨h.increasing, List.pairwise_singleton .., ?_⟩
      intro k hk j hj
      rw [List.mem_singleton.1 hj]
      exact Nat.lt_of_le_of_lt (h.le_lastLine k hk) hbehind
    · rw [hlines, List.tail_append_of_ne_nil (show f.lines ≠ [] from List.cons_ne_nil _ _),
        size_addLine]
      exact List.forall_mem_append.2 ⟨h.inside, List.forall_mem_singleton.2 hinside⟩
  · constructor
    · rw [hlines]
      exact h.increasing
    · rw [hlines, size_addLine]
      exact h.inside

theorem Lined.addLines (h : f.Lined) (offsets : List Nat) : (f.addLines offsets).Lined := by
  induction offsets generalizing f with
  | nil => exact h
  | cons o os ih => exact ih (h.addLine o)

/-! ### Offsets as lines and columns -/

/-- The line of `l` is the one that the byte at offset `o` is in, and its column counts the bytes
from the start of that line on. -/
structure Marks (f : File) (o : Nat) (l : Location) : Prop where
  file_eq : l.file = f.name
  one_le_line : 1 ≤ l.line
  line_le : l.line ≤ f.lines.length
  one_le_column : 1 ≤ l.column
  /-- The start of the line and the bytes in front of the column make up the offset. -/
  start : ∃ start, f.lines[l.line - 1]? = some start ∧ start + (l.column - 1) = o
  /-- The next line, if one is known, starts behind the offset. -/
  next : ∀ start ∈ f.lines[l.line]?, o < start

/-- Where the search by line starts comes to an end. -/
theorem marks_of_lookUp? (h : f.lookUp? o = some l) : f.Marks o l := by
  have hle := partitionPoint_le (fun start => decide (start ≤ o)) f.lines
  have hat := @any_at_partitionPoint _ (fun start => decide (start ≤ o)) f.lines
  unfold lookUp? at h
  split at h
  · cases h
  next i hpoint =>
  obtain ⟨start, hstart, rfl⟩ := Option.map_eq_some_iff.1 h
  obtain ⟨hget, hstartle⟩ := Option.filter_eq_some_iff.1 hstart
  rw [decide_eq_true_eq] at hstartle
  rw [hpoint] at hle hat
  refine ⟨rfl, Nat.succ_pos i, hle, Nat.succ_pos _, ⟨start, hget, ?_⟩, ?_⟩
  · show start + (o - start) = o
    omega
  · intro next hnext
    obtain ⟨hi, -⟩ := List.getElem?_eq_some_iff.1 hnext
    have hnot := hat hi
    rw [show f.lines[i + 1]? = some next from hnext] at hnot
    simpa using hnot

theorem Lined.marks (h : f.Lined) (o : Nat) : f.Marks o (f.locateOffset o) :=
  marks_of_lookUp? (lookUp?_eq h.increasing o)

/-- Of two offsets the later one is in a later line, or in the same line and a later column. -/
theorem Marks.lex (h : f.Marks o l) (h' : f.Marks o' l') (hlines : f.lines.Pairwise (· < ·))
    (hlt : o < o') : toLex (l.line, l.column) < toLex (l'.line, l'.column) := by
  obtain ⟨start, hstart, hcolumn⟩ := h.start
  obtain ⟨start', hstart', hcolumn'⟩ := h'.start
  have hpos := h.one_le_column
  have hpos' := h'.one_le_column
  rcases Nat.lt_trichotomy l.line l'.line with hline | hline | hline
  · exact Prod.Lex.left _ _ hline
  · -- Both columns count from the start of the same line.
    rw [hline, hstart', Option.some.injEq] at hstart
    rw [hline]
    exact Prod.Lex.right _ (by omega)
  · -- The line behind that of the later offset starts behind it, but not behind the earlier one.
    obtain ⟨hi, hget⟩ := List.getElem?_eq_some_iff.1 hstart
    have hnext : l'.line < f.lines.length := by omega
    have hbehind := h'.next _ (List.getElem?_eq_getElem hnext)
    have hle : f.lines[l'.line] ≤ f.lines[l.line - 1] := by
      rcases Nat.eq_or_lt_of_le (show l'.line ≤ l.line - 1 by omega) with heq | hlt'
      · simp only [heq, Nat.le_refl]
      · exact Nat.le_of_lt (List.pairwise_iff_getElem.1 hlines _ _ hnext hi hlt')
    omega

/-! ### What a user sees -/

/-- The laws of a file: of its line starts, of offsets and positions, and of lines and columns. -/
structure Lawful (f : File) : Prop where
  /-- The first line starts at the start of the file. -/
  first : f.lines.head? = some 0
  /-- The lines start in order. -/
  increasing : f.lines.Pairwise (· < ·)
  /-- All but the first start in front of the end of the file. -/
  inside : ∀ k ∈ f.lines.tail, k < f.size
  /-- The position of an offset leads back to the offset. -/
  offset_pos : ∀ o ≤ f.size, ∃ p, f.pos o = .ok p ∧ f.Owns p ∧ f.offset p = .ok o
  /-- The offset of a position leads back to the position. -/
  pos_offset : ∀ p, f.Owns p → ∃ o ≤ f.size, f.offset p = .ok o ∧ f.pos o = .ok p
  /-- Every position has a line and a column, which the search by line starts finds without any of
  its checks failing. -/
  located : ∀ p, f.Owns p → ∃ o l, f.offset p = .ok o ∧ f.locate p = .ok l ∧
    Checked.locate f p = .ok l ∧ f.Marks o l
  /-- Positions are in the order of their lines and columns. -/
  ordered : ∀ p q l m, f.locate p = .ok l → f.locate q = .ok m →
    (p < q ↔ toLex (l.line, l.column) < toLex (m.line, m.column))

theorem exists_offset (h : f.Owns p) :
    ∃ o ≤ f.size, p = f.base + o ∧ f.offset p = .ok o ∧ f.pos o = .ok p := by
  have hoffset : f.offset p = .ok (p - f.base) := if_pos h
  obtain ⟨hbase, hlast⟩ := h
  unfold last at hlast
  exact ⟨p - f.base, by omega, by omega, hoffset, pos_of_offset_eq_ok hoffset⟩

theorem exists_marks_of_locate (h : f.Lined) (hl : f.locate p = .ok l) :
    ∃ o, p = f.base + o ∧ f.Marks o l := by
  by_cases hp : f.Owns p
  · obtain ⟨o, -, hpos, hoffset, -⟩ := exists_offset hp
    rw [locate, hoffset] at hl
    cases hl
    exact ⟨o, hpos, h.marks o⟩
  · rw [locate, offset, if_neg hp] at hl
    cases hl

theorem Lined.lawful (h : f.Lined) : f.Lawful where
  first := rfl
  increasing := h.increasing
  inside := h.inside
  offset_pos := by
    intro o ho
    have hpos : f.pos o = .ok (f.base + o) := if_pos ho
    exact ⟨f.base + o, hpos, owns_of_pos_eq_ok hpos, offset_of_pos_eq_ok hpos⟩
  pos_offset := by
    intro p hp
    obtain ⟨o, ho, -, hoffset, hpos⟩ := exists_offset hp
    exact ⟨o, ho, hoffset, hpos⟩
  located := by
    intro p hp
    have hoffset : f.offset p = .ok (p - f.base) := if_pos hp
    have hlocate : f.locate p = .ok (f.locateOffset (p - f.base)) := by rw [locate, hoffset]; rfl
    exact ⟨_, _, hoffset, hlocate, Checked.locate_eq h.increasing hp, h.marks _⟩
  ordered := by
    intro p q l m hl hm
    obtain ⟨o, rfl, ho⟩ := exists_marks_of_locate h hl
    obtain ⟨o', rfl, ho'⟩ := exists_marks_of_locate h hm
    constructor
    · intro hlt
      exact ho.lex ho' h.increasing (by omega)
    · intro hlex
      rcases Nat.lt_trichotomy (f.base + o) (f.base + o') with hlt | heq | hgt
      · exact hlt
      · rw [heq, hm, Except.ok.injEq] at hl
        rw [hl] at hlex
        exact absurd hlex (lt_irrefl _)
      · exact absurd hlex (lt_asymm (ho'.lex ho h.increasing (by omega)))

/-- Whatever line starts are noted in a file, and in which order, its laws hold. -/
theorem lawful_addLines (f : File) (offsets : List Nat) : (f.unread.addLines offsets).Lawful :=
  (f.lined_unread.addLines offsets).lawful

/-- A line start that is noted twice, one that comes too late, and one at the end of the file. -/
example : ((⟨0, "a.sql", 1, 10, []⟩ : File).addLines [4, 4, 2, 10, 7]).lines = [0, 4, 7] := by
  decide

end File

end SqlFormatter
