import Mathlib.Algebra.BigOperators.Fin
import Mathlib.Algebra.Order.BigOperators.Group.Finset
import SqlFormatter.Proofs.Batch.Worker

/-!
# SqlFormatter.Proofs.Batch.Work

The workers of a batch at work. They take their steps in any order, and the batch takes up the
results as the workers get done (`Work.run`). Whatever the order is, each file that is registered
stays as its worker left it, there are positions for those to come, and every result is what comes
of its source alone, up to positions (`Work.Sound`, `Work.sound_run`). A worker that has taken five
steps is done (`Work.stepsLeft_run`).
-/

namespace SqlFormatter.Batch

variable {σ : Type} [FileSystem σ]

/-- The workers of a batch at some time. -/
structure Work where
  /-- What they share. -/
  shared : Shared
  /-- How far the worker for each source has come. -/
  stage : Nat → Stage := fun _ => .waiting
  /-- The results taken up, with the numbers of their sources. -/
  results : List (Nat × Attempt) := []

namespace Work

/-- The workers before the first step. -/
def start (stdin : Content) : Work := { shared := { stdin } }

/-- A step of the worker for source `i`. -/
def step (options : Options) (disk : σ) (w : Work) (i : Nat) : Work :=
  match options.files[i]? with
  | none => w
  | some path =>
    let next := (w.stage i).next options disk path w.shared
    { shared := next.2
      stage := Function.update w.stage i next.1
      results := w.results ++ (w.stage i).attempt?.toList.map (i, ·) }

/-- The steps of the workers with these numbers, one after the other. -/
def run (options : Options) (disk : σ) (w : Work) (schedule : List Nat) : Work :=
  schedule.foldl (step options disk) w

/-- All workers are done, and the batch has taken up their results. -/
def Complete (options : Options) (w : Work) : Prop :=
  ∀ i < options.files.length, (w.stage i).stepsLeft = 0

/-- The results in the order of the sources. -/
def attempts (options : Options) (w : Work) : List Attempt :=
  (List.range options.files.length).filterMap (List.lookup · w.results)

end Work

/-- The number of positions that source `i` takes. -/
def positionsAt (options : Options) (disk : σ) (stdin : Content) (i : Nat) : Nat :=
  (options.files[i]?.map fun path => positions (source disk stdin path).content).getD 0

/-- What holds of the workers of a batch at any time. -/
structure Work.Sound (options : Options) (disk : σ) (stdin : Content) (w : Work) : Prop where
  ordered : w.shared.registry.Ordered
  sound : ∀ {i path}, options.files[i]? = some path →
    (w.stage i).Sound options stdin (source disk stdin path) w.shared
  /-- Each worker has a file of its own. -/
  apart : ∀ {i j}, i < options.files.length → j < options.files.length → i ≠ j →
    ∀ f ∈ (w.stage i).file?, ∀ g ∈ (w.stage j).file?, f.id ≠ g.id
  /-- There are positions for the sources that are not registered yet. -/
  room : w.shared.registry.nextBase + ∑ i ∈ Finset.range options.files.length,
    (w.stage i).owed (positionsAt options disk stdin i) ≤ maxPos
  /-- The results are what comes of the sources alone. -/
  results : ∀ x ∈ w.results, ∃ path, options.files[x.1]? = some path ∧
    shapeOf x.2.result = shapeOf (alone options (source disk stdin path))
  joined : ∀ i < options.files.length, (w.stage i).stepsLeft = 0 → ∃ a, (i, a) ∈ w.results

/-! ### The standard input -/

/-- At most one of the sources reads the standard input. -/
theorem pairwise_of_countP_le_one {paths : List String}
    (h : paths.countP isStandardInput ≤ 1) :
    paths.Pairwise fun p q => isStandardInput p = true → isStandardInput q = false := by
  induction paths with
  | nil => exact .nil
  | cons path paths ih =>
    rw [List.countP_cons] at h
    refine .cons (fun q hq hpath => ?_) (ih (by omega))
    rw [hpath, if_pos rfl] at h
    have hnone : paths.countP isStandardInput = 0 := by omega
    exact Bool.eq_false_iff.2 (List.countP_eq_zero.1 hnone q hq)

theorem not_isStandardInput_of_ne {paths : List String} {p q : String} {i j : Nat}
    (h : paths.countP isStandardInput ≤ 1) (hi : paths[i]? = some p) (hj : paths[j]? = some q)
    (hne : i ≠ j) (hp : isStandardInput p = true) : isStandardInput q = false := by
  have hpairwise := pairwise_of_countP_le_one h
  obtain ⟨hi', rfl⟩ := List.getElem?_eq_some_iff.1 hi
  obtain ⟨hj', rfl⟩ := List.getElem?_eq_some_iff.1 hj
  rw [List.pairwise_iff_getElem] at hpairwise
  rcases Nat.lt_or_gt_of_ne hne with hlt | hlt
  · exact hpairwise i j hi' hj' hlt hp
  · -- If the later one read it, the earlier one would not.
    refine Bool.eq_false_iff.2 fun hq => ?_
    rw [hpairwise j i hj' hi' hlt hq] at hp
    cases hp

/-! ### One step -/

/-- What a worker goes by stays in place when others leave its file alone. -/
theorem Stage.Sound.frame {options : Options} {stdin : Content} {input : Input}
    {stage : Stage} {s s' : Shared} (h : stage.Sound options stdin input s)
    (hkeep : ∀ f ∈ stage.file?, f ∈ s.registry.files → f ∈ s'.registry.files)
    (hstdin : isStandardInput input.path = true → s'.stdin = s.stdin) :
    stage.Sound options stdin input s' := by
  cases stage with
  | waiting => exact fun hpath => (hstdin hpath).trans (h hpath)
  | registered bytes text file => exact ⟨h.1, hkeep file rfl h.2.mem, h.2.eq⟩
  | parsed bytes file result =>
    obtain ⟨text, htext, hparsed⟩ := h
    exact ⟨text, htext, hkeep file rfl hparsed.mem, hparsed.parse⟩
  | read | done | joined => exact h

theorem Stage.Sound.file_mem {options : Options} {stdin : Content} {input : Input}
    {stage : Stage} {s : Shared} (h : stage.Sound options stdin input s) :
    ∀ f ∈ stage.file?, f ∈ s.registry.files := by
  intro f hf
  cases stage with
  | registered bytes text file =>
    cases hf
    exact h.2.mem
  | parsed bytes file result =>
    cases hf
    exact h.choose_spec.2.mem
  | waiting | read | done | joined => cases hf

namespace Work

variable {options : Options} {disk : σ} {stdin : Content} {w : Work} {i : Nat} {path : String}

theorem step_eq (hpath : options.files[i]? = some path) :
    w.step options disk i =
      ⟨((w.stage i).next options disk path w.shared).2,
        Function.update w.stage i ((w.stage i).next options disk path w.shared).1,
        w.results ++ (w.stage i).attempt?.toList.map (i, ·)⟩ := by
  rw [step, hpath]

theorem positionsAt_eq (hpath : options.files[i]? = some path) :
    positionsAt options disk stdin i = positions (source disk stdin path).content := by
  rw [positionsAt, hpath]
  rfl

theorem lt_length (hpath : options.files[i]? = some path) : i < options.files.length :=
  (List.getElem?_eq_some_iff.1 hpath).1

section Step

variable {next : Stage} {shared : Shared} (h : w.Sound options disk stdin)
  (hpath : options.files[i]? = some path)
  (hleads : (w.stage i).Leads options stdin (source disk stdin path) next w.shared shared)

include h hpath hleads

/-- The file of the worker that takes the step is that of no other one. -/
theorem own_of_leads {j : Nat} (hj : j < options.files.length) (hne : j ≠ i) :
    ∀ f ∈ (w.stage j).file?, ∀ g ∈ next.file?, f.id ≠ g.id := by
  intro f hf g hg
  rcases hleads.own g hg with ⟨k, hk, hid⟩ | hfresh
  · rw [hid]
    exact h.apart hj (lt_length hpath) hne f hf k hk
  · exact hfresh f ((h.sound (List.getElem?_eq_getElem hj)).file_mem f hf)

theorem sound_of_leads (hstdin : options.files.countP isStandardInput ≤ 1) {j : Nat}
    {path' : String} (hj : options.files[j]? = some path') :
    (Function.update w.stage i next j).Sound options stdin (source disk stdin path') shared := by
  by_cases hne : j = i
  · subst hne
    obtain rfl : path = path' := Option.some.inj (hpath.symm.trans hj)
    rw [Function.update_self]
    exact hleads.sound
  · rw [Function.update_of_ne hne]
    exact (h.sound hj).frame
      (fun f hf hfiles => hleads.keeps f hfiles fun k hk =>
        h.apart (lt_length hj) (lt_length hpath) hne f hf k hk)
      fun hp => hleads.stdin (not_isStandardInput_of_ne hstdin hj hpath hne hp)

theorem apart_of_leads {j k : Nat} (hj : j < options.files.length) (hk : k < options.files.length)
    (hne : j ≠ k) : ∀ f ∈ (Function.update w.stage i next j).file?,
      ∀ g ∈ (Function.update w.stage i next k).file?, f.id ≠ g.id := by
  intro f hf g hg
  by_cases hji : j = i
  · subst hji
    rw [Function.update_self] at hf
    rw [Function.update_of_ne hne.symm] at hg
    exact (own_of_leads h hpath hleads hk hne.symm g hg f hf).symm
  · rw [Function.update_of_ne hji] at hf
    by_cases hki : k = i
    · subst hki
      rw [Function.update_self] at hg
      exact own_of_leads h hpath hleads hj hji f hf g hg
    · rw [Function.update_of_ne hki] at hg
      exact h.apart hj hk hne f hf g hg

theorem room_of_leads : shared.registry.nextBase + ∑ j ∈ Finset.range options.files.length,
    (Function.update w.stage i next j).owed (positionsAt options disk stdin j) ≤ maxPos := by
  have hmem : i ∈ Finset.range options.files.length := Finset.mem_range.2 (lt_length hpath)
  have hothers : ∑ j ∈ (Finset.range options.files.length).erase i,
      (Function.update w.stage i next j).owed (positionsAt options disk stdin j) =
        ∑ j ∈ (Finset.range options.files.length).erase i,
          (w.stage j).owed (positionsAt options disk stdin j) :=
    Finset.sum_congr rfl fun j hj => by rw [Function.update_of_ne (Finset.ne_of_mem_erase hj)]
  have hroom := h.room
  have hleft := hleads.room
  rw [← positionsAt_eq hpath] at hleft
  rw [← Finset.add_sum_erase _ _ hmem] at hroom ⊢
  rw [hothers, Function.update_self]
  omega

end Step

/-- A result that is taken up is what comes of its source alone. -/
theorem results_of_attempt (h : w.Sound options disk stdin)
    (hpath : options.files[i]? = some path) {a : Attempt} (ha : (w.stage i).attempt? = some a) :
    shapeOf a.result = shapeOf (alone options (source disk stdin path)) := by
  have hsound := h.sound hpath
  cases hstage : w.stage i <;> rw [hstage] at ha hsound
  case done attempt =>
    cases ha
    exact hsound
  all_goals cases ha

/-- The batch takes up the result of each worker that has no more steps to take. -/
theorem exists_mem_results_step (h : w.Sound options disk stdin)
    (hpath : options.files[i]? = some path) {j : Nat} (hj : j < options.files.length)
    (hleft : ((w.step options disk i).stage j).stepsLeft = 0) :
    ∃ a, (j, a) ∈ (w.step options disk i).results := by
  rw [step_eq hpath] at hleft ⊢
  dsimp only at hleft ⊢
  by_cases hne : j = i
  · subst hne
    rw [Function.update_self] at hleft
    rcases Stage.attempt?_of_stepsLeft_next hleft with hold | ⟨a, ha⟩
    · obtain ⟨a, ha⟩ := h.joined j hj hold
      exact ⟨a, List.mem_append_left _ ha⟩
    · refine ⟨a, List.mem_append_right _ ?_⟩
      rw [ha]
      exact List.mem_singleton_self _
  · rw [Function.update_of_ne hne] at hleft
    obtain ⟨a, ha⟩ := h.joined j hj hleft
    exact ⟨a, List.mem_append_left _ ha⟩

theorem sound_step (hdump : options.dumpTree = false)
    (hstdin : options.files.countP isStandardInput ≤ 1)
    (hsize : ∀ i, positionsAt options disk stdin i < maxPos) (h : w.Sound options disk stdin)
    (i : Nat) : (w.step options disk i).Sound options disk stdin := by
  cases hpath : options.files[i]? with
  | none =>
    rw [step, hpath]
    exact h
  | some path =>
    have hroom : w.shared.registry.nextBase +
        (w.stage i).owed (positions (source disk stdin path).content) ≤ maxPos := by
      have howed := Finset.single_le_sum
        (f := fun j => (w.stage j).owed (positionsAt options disk stdin j))
        (fun _ _ => Nat.zero_le _) (Finset.mem_range.2 (lt_length hpath))
      have hall := h.room
      rw [← positionsAt_eq hpath]
      omega
    have hlt : positions (source disk stdin path).content < maxPos := by
      rw [← positionsAt_eq hpath]
      exact hsize i
    have hleads := Stage.leads_next hdump h.ordered hlt hroom (h.sound hpath)
    have hjoined := fun j hj => exists_mem_results_step (j := j) h hpath hj
    rw [step_eq hpath] at hjoined ⊢
    refine ⟨hleads.ordered, sound_of_leads h hpath hleads hstdin,
      apart_of_leads h hpath hleads, room_of_leads h hpath hleads, ?_, hjoined⟩
    refine List.forall_mem_append.2 ⟨h.results, fun x hx => ?_⟩
    obtain ⟨a, ha, rfl⟩ := List.mem_map.1 hx
    exact ⟨path, hpath, results_of_attempt h hpath (Option.mem_toList.1 ha)⟩

/-! ### All steps -/

/-- The sources fit in the position space, one behind the other. -/
def Fits (options : Options) (disk : σ) (stdin : Content) : Prop :=
  (options.files.map fun path => positions (source disk stdin path).content).sum < maxPos

theorem sum_positionsAt (options : Options) (disk : σ) (stdin : Content) :
    ∑ i ∈ Finset.range options.files.length, positionsAt options disk stdin i =
      (options.files.map fun path => positions (source disk stdin path).content).sum := by
  rw [Finset.sum_range, ← Fin.sum_univ_fun_getElem]
  exact Finset.sum_congr rfl fun i _ => positionsAt_eq (List.getElem?_eq_getElem i.2)

theorem positionsAt_lt (h : Fits options disk stdin) (i : Nat) :
    positionsAt options disk stdin i < maxPos := by
  cases hpath : options.files[i]? with
  | none =>
    have hpos : 0 < maxPos := by decide
    rw [positionsAt, hpath]
    exact hpos
  | some path =>
    have hle := Finset.single_le_sum (f := positionsAt options disk stdin)
      (fun _ _ => Nat.zero_le _) (Finset.mem_range.2 (lt_length hpath))
    rw [sum_positionsAt] at hle
    exact Nat.lt_of_le_of_lt hle h

theorem sound_start (h : Fits options disk stdin) : (start stdin).Sound options disk stdin where
  ordered := Registry.ordered_empty
  sound _ _ := rfl
  apart _ _ _ _ hf := by cases hf
  room := by
    change 1 + ∑ i ∈ Finset.range options.files.length, positionsAt options disk stdin i ≤ maxPos
    rw [sum_positionsAt, Nat.add_comm]
    exact h
  results _ hx := by cases hx
  joined _ _ hleft := by cases hleft

/-- Whatever steps the workers have taken, each result is what comes of its source alone. -/
theorem sound_run (hdump : options.dumpTree = false)
    (hstdin : options.files.countP isStandardInput ≤ 1) (hfits : Fits options disk stdin)
    (schedule : List Nat) : ((start stdin).run options disk schedule).Sound options disk stdin := by
  suffices hrun : ∀ {w : Work}, w.Sound options disk stdin →
      (w.run options disk schedule).Sound options disk stdin from hrun (sound_start hfits)
  induction schedule with
  | nil => exact id
  | cons i schedule ih =>
    exact fun h => ih (sound_step hdump hstdin (positionsAt_lt hfits) h i)

/-- Each step of a worker brings it nearer to its end. -/
theorem stepsLeft_step (disk : σ) {i : Nat} (hi : i < options.files.length) (j : Nat)
    (w : Work) :
    ((w.step options disk j).stage i).stepsLeft ≤
      (w.stage i).stepsLeft - if j = i then 1 else 0 := by
  cases hpath : options.files[j]? with
  | none =>
    have hne : j ≠ i := fun hji => by
      rw [hji, List.getElem?_eq_getElem hi] at hpath
      cases hpath
    rw [step, hpath, if_neg hne]
    exact Nat.le_refl _
  | some path =>
    rw [step_eq hpath]
    dsimp only
    by_cases hne : i = j
    · subst hne
      rw [Function.update_self, if_pos rfl]
      exact Stage.stepsLeft_next ..
    · rw [Function.update_of_ne hne, if_neg (Ne.symm hne)]
      exact Nat.le_refl _

theorem stepsLeft_run (disk : σ) {i : Nat} (hi : i < options.files.length)
    (schedule : List Nat) (w : Work) :
    ((w.run options disk schedule).stage i).stepsLeft ≤
      (w.stage i).stepsLeft - schedule.count i := by
  induction schedule generalizing w with
  | nil => exact Nat.le_refl _
  | cons j schedule ih =>
    have hrec := ih (w.step options disk j)
    have hstep := stepsLeft_step disk hi j w
    rw [List.count_cons]
    simp only [beq_iff_eq]
    change ((run options disk (w.step options disk j) schedule).stage i).stepsLeft ≤ _
    omega

/-- Five steps of every worker bring the work to its end. -/
theorem complete_run {schedule : List Nat}
    (h : ∀ i < options.files.length, 5 ≤ schedule.count i) :
    ((start stdin).run options disk schedule).Complete options := by
  intro i hi
  have hleft := stepsLeft_run disk hi schedule (start stdin)
  have hstart : ((start stdin).stage i).stepsLeft = 5 := rfl
  have hcount := h i hi
  omega

theorem filterMap_range_getElem? {α β : Type} (f : α → β) (xs : List α) :
    ((List.range xs.length).filterMap fun i => xs[i]?.map f) = xs.map f := by
  induction xs with
  | nil => rfl
  | cons x xs ih =>
    rw [List.length_cons, List.range_succ_eq_map, List.map_cons, ← ih]
    simp only [List.filterMap_cons, List.filterMap_map, Function.comp_def,
      List.getElem?_cons_zero, List.getElem?_cons_succ, Option.map_some]

/-- The result of a source, once it is taken up. -/
theorem Sound.lookup_results (h : w.Sound options disk stdin)
    (hpath : options.files[i]? = some path) (hleft : (w.stage i).stepsLeft = 0) :
    ∃ a, w.results.lookup i = some a ∧
      shapeOf a.result = shapeOf (alone options (source disk stdin path)) := by
  obtain ⟨a, ha⟩ := h.joined i (lt_length hpath) hleft
  cases hfound : w.results.lookup i with
  | none =>
    have hother := List.lookup_eq_none_iff.1 hfound (i, a) ha
    simp at hother
  | some b =>
    obtain ⟨front, behind, hresults, -⟩ := List.lookup_eq_some_iff.1 hfound
    obtain ⟨path', hpath', hshape⟩ := h.results (i, b) (by rw [hresults]; simp)
    obtain rfl : path = path' := Option.some.inj (hpath.symm.trans hpath')
    exact ⟨b, rfl, hshape⟩

/-- When the work is at its end, the results are those of the sources alone. -/
theorem Sound.shape_attempts (h : w.Sound options disk stdin) (hcomplete : w.Complete options) :
    (w.attempts options).map (fun a => shapeOf a.result) =
      options.files.map fun path => shapeOf (alone options (source disk stdin path)) := by
  rw [attempts, List.map_filterMap, ← filterMap_range_getElem?]
  refine List.filterMap_congr fun i hi => ?_
  have hlt := List.mem_range.1 hi
  have hpath := List.getElem?_eq_getElem hlt
  obtain ⟨a, ha, hshape⟩ := h.lookup_results hpath (hcomplete i hlt)
  rw [ha, hpath, Option.map_some, Option.map_some, hshape]

end Work

end SqlFormatter.Batch
