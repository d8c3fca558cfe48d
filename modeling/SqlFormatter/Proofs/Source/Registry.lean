import Mathlib.Data.List.Pairwise
import SqlFormatter.Proofs.Source.Lines
import SqlFormatter.Source.Registry

/-!
# SqlFormatter.Proofs.Source.Registry

What holds of every registry: its files bear their numbers and lie one behind the other, before the
first position that it remembers to be free (`Registry.Ordered`), so a position tells its file.
Registering a file keeps that, and so does any change of a file that leaves it where it is. All that
registering does is said once (`Registry.run_add`).
-/

namespace SqlFormatter

namespace Registry

variable {r r' : Registry} {f g : File} {name : String} {base? : Option Nat} {size : Nat}

/-- The files bear their numbers, and they lie one behind the other from position 1 on, all of them
before the first free position. -/
structure Ordered (r : Registry) : Prop where
  id_eq : ∀ {i : Nat} {f : File}, r.files[i]? = some f → f.id = i
  base_pos : ∀ f ∈ r.files, 0 < f.base
  apart : r.files.Pairwise fun f g => f.last < g.base
  nextBase_pos : 0 < r.nextBase
  last_lt_nextBase : ∀ f ∈ r.files, f.last < r.nextBase

theorem ordered_empty : Ordered .empty where
  id_eq h := by cases h
  base_pos := nofun
  apart := .nil
  nextBase_pos := Nat.one_pos
  last_lt_nextBase := nofun

/-! ### Registering -/

/-- Registering breaks off before anything is changed, or puts a file behind the others and moves
the first free position behind that. -/
theorem run_add (r : Registry) (name : String) (base? : Option Nat) (size : Nat) :
    (add name base? size).run r =
      let base := base?.getD r.nextBase
      if base < r.nextBase then .error (.baseTaken base r.nextBase) r
      else if maxPos < base + size + 1 then .error (.positionsExhausted size base) r
      else
        let file : File := { id := r.files.length, name, base, size }
        .ok file { files := r.files ++ [file], nextBase := base + size + 1 } := by
  unfold add
  simp only [EStateM.run_bind, EStateM.run_get]
  split_ifs <;> rfl

/-- What it takes to register a file, and what comes of it. -/
theorem register_eq_ok (h : r.register name base? size = .ok (f, r')) :
    f = { id := r.files.length, name, base := base?.getD r.nextBase, size } ∧
      r'.files = r.files ++ [f] ∧ r.nextBase ≤ f.base ∧ f.base + size + 1 ≤ maxPos := by
  rw [register, run_add] at h
  dsimp only at h
  split_ifs at h with htaken hroom
  cases h
  exact ⟨rfl, rfl, Nat.le_of_not_lt htaken, Nat.le_of_not_lt hroom⟩

/-- The first free position is behind the file. -/
theorem nextBase_of_register (h : r.register name base? size = .ok (f, r')) :
    r'.nextBase = f.last + 1 := by
  rw [register, run_add] at h
  dsimp only at h
  split_ifs at h
  cases h
  rfl

/-- A file finds room where the next one may start. -/
theorem register_eq_of_room (hroom : r.nextBase + size + 1 ≤ maxPos) :
    ∃ f r', r.register name none size = .ok (f, r') := by
  rw [register, run_add]
  dsimp only [Option.getD_none]
  rw [if_neg (Nat.lt_irrefl _), if_neg (Nat.not_lt.2 hroom)]
  exact ⟨_, _, rfl⟩

theorem Ordered.register (h : r.Ordered) (hf : r.register name base? size = .ok (f, r')) :
    r'.Ordered := by
  have hnext := nextBase_of_register hf
  obtain ⟨rfl, hfiles, hbase, -⟩ := register_eq_ok hf
  constructor
  · intro i g hg
    rw [hfiles] at hg
    rcases Nat.lt_trichotomy i r.files.length with hi | rfl | hi
    · rw [List.getElem?_append_left hi] at hg
      exact h.id_eq hg
    · rw [List.getElem?_concat_length] at hg
      cases hg
      rfl
    · rw [List.getElem?_eq_none (by rw [List.length_append]; exact hi)] at hg
      cases hg
  · rw [hfiles, List.forall_mem_append, List.forall_mem_singleton]
    exact ⟨h.base_pos, Nat.lt_of_lt_of_le h.nextBase_pos hbase⟩
  · rw [hfiles, List.pairwise_append]
    refine ⟨h.apart, List.pairwise_singleton .., fun g hg f' hf' => ?_⟩
    rw [List.mem_singleton] at hf'
    subst hf'
    exact Nat.lt_of_lt_of_le (h.last_lt_nextBase g hg) hbase
  · rw [hnext]
    exact Nat.succ_pos _
  · rw [hfiles, hnext, List.forall_mem_append, List.forall_mem_singleton]
    refine ⟨fun g hg => ?_, Nat.lt_succ_self _⟩
    have hlt := h.last_lt_nextBase g hg
    exact Nat.lt_succ_of_le (Nat.le_trans hlt.le (Nat.le_trans hbase (Nat.le_add_right ..)))

/-! ### Finding -/

theorem Ordered.file?_id (h : r.Ordered) (hf : f ∈ r.files) : r.file? f.id = some f := by
  obtain ⟨i, hi⟩ := List.getElem?_of_mem hf
  rw [file?, h.id_eq hi, hi]

/-- A position belongs to one file. -/
theorem Ordered.fileAt?_of_owns (h : r.Ordered) (hf : f ∈ r.files) {p : Nat} (hp : f.Owns p) :
    r.fileAt? p = some f := by
  obtain ⟨front, behind, hfiles⟩ := List.append_of_mem hf
  have hapart := h.apart
  rw [hfiles] at hapart
  refine List.find?_eq_some_iff_append.2 ⟨decide_eq_true hp, front, behind, hfiles, fun g hg => ?_⟩
  have hlt := (List.pairwise_append.1 hapart).2.2 g hg f List.mem_cons_self
  have hnot : ¬g.Owns p := fun howns => by
    have hle := howns.2
    have hle' := hp.1
    omega
  simp [hnot]

theorem Ordered.locate?_of_owns (h : r.Ordered) (hf : f ∈ r.files) {p : Nat} (hp : f.Owns p) :
    r.locate? p = some (f.locateOffset (p - f.base)) := by
  rw [locate?, h.fileAt?_of_owns hf hp, Option.map_some]

/-- Nowhere there is no file. -/
theorem Ordered.locate?_nowhere (h : r.Ordered) : r.locate? nowhere = none := by
  have hnone : r.fileAt? nowhere = none := by
    refine List.find?_eq_none.2 fun f hf => ?_
    have hpos := h.base_pos f hf
    have hnot : ¬f.Owns nowhere := fun howns => Nat.not_le.2 hpos howns.1
    simp [hnot]
  rw [locate?, hnone, Option.map_none]

/-! ### Changing a file -/

/-- The order is a matter of how the files were registered. -/
theorem Ordered.congr (h : r.Ordered)
    (hfiles : r'.files.map File.unread = r.files.map File.unread)
    (hnext : r'.nextBase = r.nextBase) : r'.Ordered := by
  have hmem : ∀ g ∈ r'.files, ∃ f ∈ r.files, f.unread = g.unread := fun g hg =>
    List.mem_map.1 (hfiles ▸ List.mem_map_of_mem hg)
  constructor
  · intro i g hg
    have hunread := congrArg (·[i]?) hfiles
    simp only [List.getElem?_map, hg, Option.map_some] at hunread
    obtain ⟨f, hf, hfg⟩ := Option.map_eq_some_iff.1 hunread.symm
    rw [← h.id_eq hf]
    exact (File.unread_eq_iff.1 hfg.symm).1
  · intro g hg
    obtain ⟨f, hf, hfg⟩ := hmem g hg
    have hbase : f.base = g.base := (File.unread_eq_iff.1 hfg).2.2.1
    exact hbase ▸ h.base_pos f hf
  · have hapart : (r.files.map File.unread).Pairwise fun f g => f.last < g.base :=
      List.pairwise_map.2 h.apart
    rw [← hfiles] at hapart
    exact List.pairwise_map.1 hapart
  · exact hnext ▸ h.nextBase_pos
  · intro g hg
    obtain ⟨f, hf, hfg⟩ := hmem g hg
    obtain ⟨-, -, hbase, hsize⟩ := File.unread_eq_iff.1 hfg
    rw [hnext, File.last, ← hbase, ← hsize]
    exact h.last_lt_nextBase f hf

@[simp] theorem nextBase_update (r : Registry) (g : File) :
    (r.update g).nextBase = r.nextBase := rfl

theorem files_update (r : Registry) (g : File) : (r.update g).files = r.files.set g.id g := rfl

theorem Ordered.getElem?_id (h : r.Ordered) (hf : f ∈ r.files) : r.files[f.id]? = some f :=
  h.file?_id hf

theorem Ordered.id_lt (h : r.Ordered) (hf : f ∈ r.files) : f.id < r.files.length :=
  (List.getElem?_eq_some_iff.1 (h.getElem?_id hf)).1

theorem Ordered.eq_of_id (h : r.Ordered) (hf : f ∈ r.files) (hg : g ∈ r.files) (hid : f.id = g.id) :
    f = g := by
  have hget := h.getElem?_id hf
  rw [hid, h.getElem?_id hg] at hget
  exact (Option.some.inj hget).symm

/-- Each file is replaced by none but itself. -/
theorem Ordered.mem_update_iff (h : r.Ordered) (hf : f ∈ r.files) (hg : g.unread = f.unread)
    {k : File} : k ∈ (r.update g).files ↔ k = g ∨ k ∈ r.files ∧ k.id ≠ f.id := by
  have hid : g.id = f.id := (File.unread_eq_iff.1 hg).1
  have hlt := (List.getElem?_eq_some_iff.1 (h.getElem?_id hf)).1
  rw [files_update, hid]
  constructor
  · intro hk
    obtain ⟨i, hi⟩ := List.getElem?_of_mem hk
    rw [List.getElem?_set] at hi
    split at hi
    · cases hi
      exact Or.inl rfl
    · next hne =>
      exact Or.inr ⟨List.mem_of_getElem? hi, fun heq => hne (heq ▸ h.id_eq hi)⟩
  · rintro (rfl | ⟨hk, hne⟩)
    · exact List.mem_set hlt k
    · refine List.mem_of_getElem? (i := k.id) ?_
      rw [List.getElem?_set_ne hne.symm]
      exact h.getElem?_id hk

theorem Ordered.mem_update (h : r.Ordered) (hf : f ∈ r.files) (hg : g.unread = f.unread) :
    g ∈ (r.update g).files :=
  (h.mem_update_iff hf hg).2 (Or.inl rfl)

/-- A file that has been read on is still where it was. -/
theorem Ordered.unread_update (h : r.Ordered) (hf : f ∈ r.files) (hg : g.unread = f.unread) :
    (r.update g).files.map File.unread = r.files.map File.unread := by
  have hid : g.id = f.id := (File.unread_eq_iff.1 hg).1
  obtain ⟨hlt, hget⟩ := List.getElem?_eq_some_iff.1 (h.getElem?_id hf)
  rw [files_update, List.map_set, hid, hg]
  refine List.ext_getElem? fun i => ?_
  rw [List.getElem?_set]
  split
  · next hi =>
    subst hi
    simp [hlt, hget]
  · rfl

theorem Ordered.update (h : r.Ordered) (hf : f ∈ r.files) (hg : g.unread = f.unread) :
    (r.update g).Ordered := h.congr (h.unread_update hf hg) (r.nextBase_update g)

end Registry

end SqlFormatter
