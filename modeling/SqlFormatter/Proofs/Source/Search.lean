import SqlFormatter.Proofs.Source.Registry

/-!
# SqlFormatter.Proofs.Source.Search

Searching by halves.

* `partitionPoint p xs` is the place in `xs` where items with the property `p` end, if those are a
  front of the list. It is found by halving the stretch in which it must be, and never beyond the
  ends of the list; the item in front of it has the property in any case.
* The file of a position is found by the bases alone (`Registry.fileByBase?`), because files lie one
  behind the other.
* The line of an offset is found by the line starts (`File.lookUp?`), because those are in order.
  There is always a line to find, since the first one starts at 0.
-/

namespace SqlFormatter

section Bisect

variable {α : Type} {p : α → Bool} {xs : List α}

/-- The place from `lo` to `hi` where items with the property `p` end. -/
def bisect (p : α → Bool) (xs : List α) (lo hi : Nat) : Nat :=
  if lo < hi then
    let mid := lo + (hi - lo) / 2
    if xs[mid]?.any p then bisect p xs (mid + 1) hi else bisect p xs lo mid
  else lo
termination_by hi - lo

/-- The place where items with the property `p` end. -/
def partitionPoint (p : α → Bool) (xs : List α) : Nat := bisect p xs 0 xs.length

/-- The search ends inside of the stretch, behind an item with the property and in front of one
without it, or else at an end of the stretch. -/
theorem bisect_spec {lo hi : Nat} (h : lo ≤ hi) :
    lo ≤ bisect p xs lo hi ∧ bisect p xs lo hi ≤ hi ∧
      (lo < bisect p xs lo hi → xs[bisect p xs lo hi - 1]?.any p = true) ∧
        (bisect p xs lo hi < hi → xs[bisect p xs lo hi]?.any p = false) := by
  fun_induction bisect p xs lo hi with
  | case1 lo hi hlt mid hmid ih =>
    obtain ⟨hlo, hhi, hbefore, hat⟩ := ih (by omega)
    refine ⟨by omega, hhi, fun _ => ?_, hat⟩
    rcases Nat.eq_or_lt_of_le hlo with heq | hlt'
    · rw [← heq, Nat.add_sub_cancel]
      exact hmid
    · exact hbefore hlt'
  | case2 lo hi hlt mid hmid ih =>
    obtain ⟨hlo, hhi, hbefore, hat⟩ := ih (by omega)
    refine ⟨hlo, by omega, hbefore, fun _ => ?_⟩
    rcases Nat.eq_or_lt_of_le hhi with heq | hlt'
    · rw [heq]
      exact Bool.eq_false_iff.2 hmid
    · exact hat hlt'
  | case3 lo hi hnot =>
    exact ⟨Nat.le_refl _, h, fun hlt => absurd hlt (Nat.lt_irrefl _), fun hlt => absurd hlt hnot⟩

theorem partitionPoint_le (p : α → Bool) (xs : List α) : partitionPoint p xs ≤ xs.length :=
  (bisect_spec (Nat.zero_le _)).2.1

/-- The item in front of the place has the property. -/
theorem any_before_partitionPoint (h : 0 < partitionPoint p xs) :
    xs[partitionPoint p xs - 1]?.any p = true :=
  (bisect_spec (Nat.zero_le _)).2.2.1 h

/-- The item at the place has not. -/
theorem any_at_partitionPoint (h : partitionPoint p xs < xs.length) :
    xs[partitionPoint p xs]?.any p = false :=
  (bisect_spec (Nat.zero_le _)).2.2.2 h

/-- The items with the property end where the others start. -/
theorem partitionPoint_append {front behind : List α} (hfront : ∀ x ∈ front, p x = true)
    (hbehind : ∀ x ∈ behind, p x = false) :
    partitionPoint p (front ++ behind) = front.length := by
  have hle := partitionPoint_le p (front ++ behind)
  rw [List.length_append] at hle
  rcases Nat.lt_trichotomy (partitionPoint p (front ++ behind)) front.length with hlt | heq | hlt
  · have hnot : (front ++ behind)[partitionPoint p (front ++ behind)]?.any p = false :=
      any_at_partitionPoint (by rw [List.length_append]; omega)
    rw [List.getElem?_append_left hlt, List.getElem?_eq_getElem hlt, Option.any_some,
      hfront _ (List.getElem_mem hlt)] at hnot
    cases hnot
  · exact heq
  · have hyes := any_before_partitionPoint (Nat.zero_lt_of_lt hlt)
    rw [List.getElem?_append_right (by omega), List.getElem?_eq_getElem (by omega),
      Option.any_some, hbehind _ (List.getElem_mem _)] at hyes
    cases hyes

/-- A list on which the property only gets lost: those that have it stand in front. -/
theorem exists_front (h : xs.Pairwise fun x y => p y = true → p x = true) :
    ∃ front behind, xs = front ++ behind ∧ (∀ x ∈ front, p x = true) ∧
      ∀ x ∈ behind, p x = false := by
  refine ⟨xs.takeWhile p, xs.dropWhile p, List.takeWhile_append_dropWhile.symm,
    List.all_eq_true.1 List.all_takeWhile, ?_⟩
  have hlate := h.sublist (List.dropWhile_sublist p)
  have hfirst := List.head?_dropWhile_not p xs
  cases hdrop : xs.dropWhile p with
  | nil => exact nofun
  | cons y ys =>
    rw [hdrop] at hlate hfirst
    have hy : p y = false := by simpa using hfirst
    refine List.forall_mem_cons.2 ⟨hy, fun x hx => Bool.eq_false_iff.2 fun hpx => ?_⟩
    rw [List.rel_of_pairwise_cons hlate hx hpx] at hy
    cases hy

end Bisect

/-! ### Files by their bases -/

namespace Registry

variable {r : Registry} {f : File} {p : Nat}

/-- The file that owns position `p`, as it is found by the bases: if a file owns the position, it is
the last one that starts there or in front of it. -/
def fileByBase? (r : Registry) (p : Nat) : Option File :=
  if isSomewhere p then
    match partitionPoint (fun f => f.base ≤ p) r.files with
    | 0 => none
    | i + 1 => r.files[i]?.filter fun f => f.Owns p
  else none

theorem Ordered.fileAt?_eq_none (h : ∀ f ∈ r.files, ¬f.Owns p) : r.fileAt? p = none :=
  List.find?_eq_none.2 fun f hf => by simpa using h f hf

/-- The bases lead to the file that owns the position. -/
theorem Ordered.fileByBase?_eq (h : r.Ordered) (p : Nat) : r.fileByBase? p = r.fileAt? p := by
  unfold fileByBase?
  by_cases hp : p = nowhere
  · subst hp
    refine (Ordered.fileAt?_eq_none fun f hf howns => ?_).symm
    exact Nat.not_le.2 (h.base_pos f hf) howns.1
  rw [isSomewhere, if_pos (by simpa using hp)]
  have horder : r.files.Pairwise fun f g =>
      decide (g.base ≤ p) = true → decide (f.base ≤ p) = true :=
    h.apart.imp fun {f g} hlt hg => by
      have hle : f.base ≤ f.last := Nat.le_add_right ..
      rw [decide_eq_true_eq] at hg ⊢
      omega
  obtain ⟨front, behind, hfiles, hfront, hbehind⟩ := exists_front horder
  have hpoint : partitionPoint (fun f => decide (f.base ≤ p)) r.files = front.length :=
    hfiles ▸ partitionPoint_append hfront hbehind
  simp only [decide_eq_true_eq, decide_eq_false_iff_not, Nat.not_le] at hfront hbehind
  rw [hpoint]
  have hlate : ∀ f ∈ behind, ¬f.Owns p := fun f hf howns => by
    have hlt := hbehind f hf
    have hle := howns.1
    omega
  rcases List.eq_nil_or_concat front with rfl | ⟨others, f, rfl⟩
  · refine (Ordered.fileAt?_eq_none fun f hf => ?_).symm
    rw [hfiles] at hf
    exact hlate f hf
  · rw [List.concat_eq_append] at hfiles hfront ⊢
    have hget : r.files[others.length]? = some f := by
      rw [hfiles, List.getElem?_append_left (by simp), List.getElem?_concat_length]
    have hmem : f ∈ r.files := List.mem_of_getElem? hget
    rw [List.length_append, List.length_singleton]
    dsimp only
    rw [hget]
    by_cases howns : f.Owns p
    · rw [h.fileAt?_of_owns hmem howns, Option.filter_some, if_pos (decide_eq_true howns)]
    · rw [Option.filter_some, if_neg (by simpa using howns)]
      refine (Ordered.fileAt?_eq_none fun g hg hgowns => ?_).symm
      have hapart := h.apart
      rw [hfiles] at hg hapart
      rw [List.mem_append, List.mem_append, List.mem_singleton] at hg
      rcases hg with (hg | rfl) | hg
      · -- The files in front of the last one that starts early end in front of its base.
        have hlt := (List.pairwise_append.1 (List.pairwise_append.1 hapart).1).2.2 g hg f
          (List.mem_singleton_self f)
        have hbase := hfront f (List.mem_append_right _ (List.mem_singleton_self f))
        have hlast := hgowns.2
        omega
      · exact howns hgowns
      · exact hlate g hg hgowns

end Registry

/-! ### Lines by their starts -/

namespace File

variable {f : File}

/-- The line and column of the byte at `offset`, as they are found by the line starts: the line is
the last one that starts there or in front of it. -/
def lookUp? (f : File) (offset : Nat) : Option Location :=
  match partitionPoint (fun start => start ≤ offset) f.lines with
  | 0 => none
  | i + 1 =>
    (f.lines[i]?.filter (· ≤ offset)).map fun start => ⟨f.name, i + 1, offset - start + 1⟩

/-- The line starts lead to the line and the column. -/
theorem lookUp?_eq (h : f.lines.Pairwise (· < ·)) (o : Nat) :
    f.lookUp? o = some (f.locateOffset o) := by
  have horder : f.lines.Pairwise fun j k => decide (k ≤ o) = true → decide (j ≤ o) = true :=
    h.imp fun {j k} hlt hk => by
      rw [decide_eq_true_eq] at hk ⊢
      omega
  obtain ⟨front, behind, hlines, hfront, hbehind⟩ := exists_front horder
  have hpoint : partitionPoint (fun start => decide (start ≤ o)) f.lines = front.length :=
    hlines ▸ partitionPoint_append hfront hbehind
  cases front with
  | nil =>
    -- The first line starts at 0, so there is one in front.
    have hzero := hbehind 0 (by rw [← List.nil_append behind, ← hlines]; exact List.mem_cons_self)
    simp at hzero
  | cons k ks =>
    obtain ⟨hk, hrest⟩ : 0 = k ∧ f.laterLines.reverse = ks ++ behind := List.cons.inj hlines
    have hearly : f.laterLines.reverse.filter (· ≤ o) = ks := by
      rw [hrest, List.filter_append,
        List.filter_eq_self.2 fun j hj => hfront j (List.mem_cons_of_mem _ hj),
        List.filter_eq_nil_iff.2 fun j hj => Bool.eq_false_iff.1 (hbehind j hj), List.append_nil]
    have hlast : (k :: ks).getLast? = some (ks.getLast?.getD 0) := by
      rw [List.getLast?_cons, ← hk]
    have hget : f.lines[ks.length]? = some (ks.getLast?.getD 0) := by
      rw [hlines, List.getElem?_append_left (Nat.lt_succ_self _), ← hlast,
        List.getLast?_eq_getElem?, List.length_cons, Nat.add_sub_cancel]
    have hle := hfront _ (List.mem_of_getLast? hlast)
    rw [decide_eq_true_eq] at hle
    rw [lookUp?, hpoint, List.length_cons]
    dsimp only
    rw [hget, Option.filter_some, if_pos (decide_eq_true hle), Option.map_some, locateOffset_eq,
      hearly]

/-- A file knows its lines in order. -/
theorem Knows.pairwise_lines {read : List Char} (h : f.Knows read) : f.lines.Pairwise (· < ·) := by
  rw [lines, h, List.pairwise_cons]
  refine ⟨fun k hk => ?_, (pairwise_lineStarts 0 read).filter _⟩
  exact (bounds_of_mem_lineStarts (List.mem_filter.1 hk).1).1

end File

end SqlFormatter
