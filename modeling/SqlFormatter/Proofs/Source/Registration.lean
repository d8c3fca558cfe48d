import SqlFormatter.Proofs.Source.Search

/-!
# SqlFormatter.Proofs.Source.Registration

What holds of every registry that comes of registering files one after the other, whatever bases and
sizes are asked for, and whether or not a call fails.

The invariant is `Registry.Sound`: the files lie in order, and the first free position, which the
registry remembers, is the one behind them (`Registry.behind`). A call that fails leaves all as it
was (`attempt_of_error`), and one that succeeds puts a file behind the others and moves that
position on (`Registry.register_eq_ok`, `Registry.nextBase_of_register`). So each call keeps the
invariant (`Sound.attempt`), and so do all of them (`sound_ofCalls`). `Registry.Lawful` is what a
user of the registry sees of that.
-/

namespace SqlFormatter

/-- What a caller wants to be registered. -/
structure Registration where
  /-- The name of the file. -/
  name : String
  /-- Where to place the file, unless at the first position that is free. -/
  base? : Option Nat
  /-- The number of its bytes. -/
  size : Nat
  deriving DecidableEq, Repr

namespace Registry

variable {r r' : Registry} {f g : File} {name : String} {base? : Option Nat} {size p : Nat}

/-- The registry after a call, whether the call fails or not. -/
def attempt (r : Registry) (c : Registration) : Registry :=
  match (add c.name c.base? c.size).run r with
  | .ok _ r' | .error _ r' => r'

/-- The registry after the calls, one after the other. -/
def ofCalls (calls : List Registration) : Registry := calls.foldl attempt empty

theorem attempt_of_ok {c : Registration} (h : r.register c.name c.base? c.size = .ok (f, r')) :
    r.attempt c = r' := by
  rw [register] at h
  rw [attempt]
  cases hrun : (add c.name c.base? c.size).run r with
  | ok file next =>
    rw [hrun] at h
    cases h
    rfl
  | error violation next =>
    rw [hrun] at h
    cases h

/-- When a call fails nothing has been changed. -/
theorem attempt_of_error {c : Registration} {v : Violation}
    (h : r.register c.name c.base? c.size = .error v) : r.attempt c = r := by
  rw [register, run_add] at h
  rw [attempt, run_add]
  dsimp only at h ⊢
  split_ifs at h ⊢ <;> rfl

/-! ### The invariant -/

/-- The position behind the files, one further than the position that stays free. -/
def behind (files : List File) : Nat := (files.getLast?.map fun f => f.last + 1).getD 1

theorem behind_of_getLast? {files : List File} (h : files.getLast? = some f) :
    behind files = f.base + f.size + 1 := by
  rw [behind, h]
  rfl

/-- The files lie in order, and what is remembered is the position behind them. -/
structure Sound (r : Registry) : Prop where
  ordered : r.Ordered
  nextBase_eq : r.nextBase = behind r.files
  nextBase_le : r.nextBase ≤ maxPos

theorem sound_empty : Sound .empty where
  ordered := ordered_empty
  nextBase_eq := rfl
  nextBase_le := by decide

theorem Sound.register (h : r.Sound) (hf : r.register name base? size = .ok (f, r')) :
    r'.Sound := by
  have hnext := nextBase_of_register hf
  obtain ⟨hfile, hfiles, -, hroom⟩ := register_eq_ok hf
  have hlast : r'.files.getLast? = some f := by rw [hfiles, List.getLast?_concat]
  have hsize : f.size = size := by rw [hfile]
  refine ⟨h.ordered.register hf, ?_, ?_⟩
  · rw [hnext, behind_of_getLast? hlast, File.last]
  · rw [hnext, File.last, hsize]
    exact hroom

theorem Sound.attempt (h : r.Sound) (c : Registration) : (r.attempt c).Sound := by
  rcases hc : r.register c.name c.base? c.size with v | ⟨f, r'⟩
  · rw [attempt_of_error hc]
    exact h
  · rw [attempt_of_ok hc]
    exact h.register hc

theorem sound_ofCalls (calls : List Registration) : (ofCalls calls).Sound := by
  induction calls using List.reverseRecOn with
  | nil => exact sound_empty
  | append_singleton calls c ih =>
    rw [ofCalls, List.foldl_concat]
    exact ih.attempt c

/-! ### Places in the order -/

theorem Ordered.map_id (h : r.Ordered) : r.files.map File.id = List.range r.size := by
  refine List.ext_getElem (by rw [List.length_map, List.length_range, Registry.size]) ?_
  intro i hi _
  rw [List.getElem_map, List.getElem_range]
  exact h.id_eq (List.getElem?_eq_getElem _)

theorem Ordered.isChain (h : r.Ordered) :
    r.files.IsChain fun f g => f.base + f.size + 1 ≤ g.base :=
  h.apart.isChain

/-- The bases lead to the one file that owns the position. -/
theorem Ordered.fileByBase?_eq_some_iff (h : r.Ordered) :
    r.fileByBase? p = some f ↔ f ∈ r.files ∧ f.Owns p := by
  rw [h.fileByBase?_eq]
  constructor
  · intro hf
    exact ⟨List.mem_of_find?_eq_some hf, by simpa using List.find?_some hf⟩
  · rintro ⟨hf, hp⟩
    exact h.fileAt?_of_owns hf hp

theorem Ordered.eq_of_owns (h : r.Ordered) (hf : f ∈ r.files) (hg : g ∈ r.files) (hfp : f.Owns p)
    (hgp : g.Owns p) : f = g := by
  have hfind := h.fileAt?_of_owns hf hfp
  rw [h.fileAt?_of_owns hg hgp] at hfind
  exact (Option.some.inj hfind).symm

/-- A call fails for its base or for want of room. -/
theorem exists_register_eq_error_iff :
    (∃ v, r.register name base? size = .error v) ↔
      (∃ b, base? = some b ∧ b < r.nextBase) ∨
        maxPos < base?.getD r.nextBase + size + 1 := by
  have hbase : base?.getD r.nextBase < r.nextBase ↔ ∃ b, base? = some b ∧ b < r.nextBase := by
    cases base? <;> simp
  rw [← hbase, register, run_add]
  dsimp only
  split_ifs with htaken hroom
  · exact ⟨fun _ => Or.inl htaken, fun _ => ⟨_, rfl⟩⟩
  · exact ⟨fun _ => Or.inr hroom, fun _ => ⟨_, rfl⟩⟩
  · constructor
    · rintro ⟨v, hv⟩
      cases hv
    · rintro (h | h)
      · exact absurd h htaken
      · exact absurd h hroom

/-! ### What a user sees -/

/-- The laws of a registry: of its files, of a further call, and of finding the file of a
position. -/
structure Lawful (r : Registry) : Prop where
  /-- The files are numbered in the order of their registration. -/
  ids : r.files.map File.id = List.range r.size
  /-- The first file is not placed at position 0. -/
  first : ∀ f, r.files.head? = some f → 1 ≤ f.base
  /-- Each file is placed behind the one before, with a position free between them. -/
  apart : r.files.IsChain fun f g => f.base + f.size + 1 ≤ g.base
  /-- The first file may be placed from position 1 on. -/
  nextBase_nil : r.files = [] → r.nextBase = 1
  /-- A further one may be placed from behind the position that stays free. -/
  nextBase_last : ∀ f, r.files.getLast? = some f → r.nextBase = f.base + f.size + 1
  /-- The place of the next file is a position. -/
  nextBase_le : r.nextBase ≤ maxPos
  /-- A call fails exactly if its base is taken or the positions do not suffice. -/
  fails : ∀ c : Registration, (∃ v, r.register c.name c.base? c.size = .error v) ↔
    (∃ b, c.base? = some b ∧ b < r.nextBase) ∨ maxPos < c.base?.getD r.nextBase + c.size + 1
  /-- After a call that failed the registry is as it was. -/
  unchanged : ∀ c : Registration, ∀ v, r.register c.name c.base? c.size = .error v →
    r.attempt c = r
  /-- After a call that succeeded there is one file more. -/
  registered : ∀ c : Registration, ∀ f r', r.register c.name c.base? c.size = .ok (f, r') →
    r.attempt c = r' ∧ r'.files = r.files ++ [f] ∧
      f = { id := r.size, name := c.name, base := c.base?.getD r.nextBase, size := c.size }
  /-- The file found for a position is the one that owns it. -/
  found : ∀ p f, r.fileAt? p = some f ↔ f ∈ r.files ∧ f.base ≤ p ∧ p ≤ f.base + f.size
  /-- The search by halves finds the same file. -/
  searched : ∀ p, r.fileByBase? p = r.fileAt? p
  /-- No position belongs to two files. -/
  unique : ∀ p, ∀ f ∈ r.files, ∀ g ∈ r.files, f.Owns p → g.Owns p → f = g

/-- Whatever is registered, and whichever calls fail, the laws hold after every call. -/
theorem lawful_ofCalls (calls : List Registration) : (ofCalls calls).Lawful := by
  have hsound := sound_ofCalls calls
  have hordered := hsound.ordered
  exact
    { ids := hordered.map_id
      first := fun f hf => hordered.base_pos f (List.mem_of_mem_head? hf)
      apart := hordered.isChain
      nextBase_nil := fun hnil => by rw [hsound.nextBase_eq, hnil]; rfl
      nextBase_last := fun f hf => by rw [hsound.nextBase_eq, behind_of_getLast? hf]
      nextBase_le := hsound.nextBase_le
      fails := fun _ => exists_register_eq_error_iff
      unchanged := fun _ _ => attempt_of_error
      registered := fun c f r' hf => by
        obtain ⟨hfile, hfiles, -⟩ := register_eq_ok hf
        exact ⟨attempt_of_ok hf, hfiles, hfile⟩
      found := fun p f => by rw [← hordered.fileByBase?_eq, hordered.fileByBase?_eq_some_iff]; rfl
      searched := hordered.fileByBase?_eq
      unique := fun p f hf g hg => hordered.eq_of_owns hf hg }

/-- A hole, an empty file, a base that is taken, and sizes at the limit. -/
example : (ofCalls [⟨"a", none, 3⟩, ⟨"b", some 10, 0⟩, ⟨"c", some 10, 1⟩, ⟨"d", none, maxPos⟩,
    ⟨"e", none, maxPos - 12⟩]).files.map (fun f => (f.id, f.base, f.size)) =
      [(0, 1, 3), (1, 10, 0), (2, 11, maxPos - 12)] := by decide

end Registry

end SqlFormatter
