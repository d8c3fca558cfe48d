import SqlFormatter.Proofs.Batch.Work

/-!
# SqlFormatter.Proofs.Batch.Turns

Workers that work in turn, each until it is done. That is one of the ways in which the steps of the
workers can follow each other, and it is what `attemptsIn` does (`Work.attempts_inTurn`).
-/

namespace SqlFormatter.Batch

variable {σ : Type} [FileSystem σ] {options : Options} {disk : σ} {stdin : Content} {path : String}

/-! ### One worker by itself -/

/-- What so many steps of one worker lead to, and what the batch takes up in them. -/
def Stage.steps (options : Options) (disk : σ) (path : String) :
    Nat → Stage → Shared → (Stage × Shared) × List Attempt
  | 0, stage, s => ((stage, s), [])
  | n + 1, stage, s =>
    let next := stage.next options disk path s
    let last := steps options disk path n next.1 next.2
    (last.1, stage.attempt?.toList ++ last.2)

/-- After a source has been read, the worker makes the attempt of the batch. -/
theorem Stage.steps_read (disk : σ) {input : Input} (s : Shared) :
    steps options disk input.path 4 (read input.content) s =
      ((joined, { s with registry := (attempt options s.registry input).2 }),
        [(attempt options s.registry input).1]) := by
  cases hcontent : input.content with
  | error fault =>
    rw [attempt_of_fault hcontent]
    rfl
  | ok bytes =>
    cases hdecode : decodeUtf8 bytes with
    | error fault =>
      rw [attempt_of_not_utf8 hcontent hdecode]
      simp [steps, next, hdecode, attempt?]
    | ok text =>
      cases hregister :
          s.registry.register (sourceName input.path) none (byteLength text.toList) with
      | error violation =>
        rw [attempt_of_violation hcontent hdecode hregister]
        simp [steps, next, hdecode, hregister, attempt?]
      | ok p =>
        obtain ⟨f, r⟩ := p
        obtain ⟨result, lines, hparse, -⟩ := exists_parseText text options.expired
        obtain ⟨hf, -⟩ := Registry.register_eq_ok hregister
        have hrun := hparse f.id f.name f.base
        have hfile : (⟨f.id, f.name, f.base, byteLength text.toList, []⟩ : File) = f := by rw [hf]
        rw [hfile] at hrun
        rw [attempt_of_text hcontent hdecode hregister hrun]
        simp [steps, next, hdecode, hregister, hrun, attempt?]

theorem Stage.steps_waiting (options : Options) (disk : σ) (s : Shared)
    (h : isStandardInput path = true → s.stdin = stdin) :
    ∃ rest, (isStandardInput path = false → rest = s.stdin) ∧
      steps options disk path 5 waiting s =
        ((joined, ⟨(attempt options s.registry (source disk stdin path)).2, rest⟩),
          [(attempt options s.registry (source disk stdin path)).1]) := by
  cases hpath : isStandardInput path with
  | true =>
    have hread : waiting.next options disk path s =
        (read (source disk stdin path).content, ⟨s.registry, .ok []⟩) := by
      rw [next, if_pos hpath, source, if_pos hpath, h hpath]
    refine ⟨.ok [], fun hnot => Bool.noConfusion hnot, ?_⟩
    rw [steps, hread]
    exact congrArg (fun p => (p.1, [] ++ p.2)) (steps_read disk ⟨s.registry, .ok []⟩)
  | false =>
    have hread : waiting.next options disk path s = (read (source disk stdin path).content, s) := by
      rw [next, hpath, if_neg Bool.false_ne_true, source, hpath, if_neg Bool.false_ne_true]
    refine ⟨s.stdin, fun _ => rfl, ?_⟩
    rw [steps, hread]
    exact congrArg (fun p => (p.1, [] ++ p.2)) (steps_read disk s)

/-! ### The workers in turn -/

namespace Work

variable {w : Work} {i : Nat}

theorem run_append (w : Work) (before after : List Nat) :
    w.run options disk (before ++ after) = (w.run options disk before).run options disk after :=
  List.foldl_append

/-- The steps that one worker takes in a row. -/
theorem run_replicate (hpath : options.files[i]? = some path) (n : Nat) (w : Work) :
    w.run options disk (List.replicate n i) =
      ⟨(Stage.steps options disk path n (w.stage i) w.shared).1.2,
        Function.update w.stage i (Stage.steps options disk path n (w.stage i) w.shared).1.1,
        w.results ++ (Stage.steps options disk path n (w.stage i) w.shared).2.map (i, ·)⟩ := by
  induction n generalizing w with
  | zero =>
    rw [Stage.steps, Function.update_eq_self, List.map_nil, List.append_nil]
    rfl
  | succ n ih =>
    have hrec := ih (w.step options disk i)
    rw [step_eq hpath] at hrec
    simp only [Function.update_self, Function.update_idem] at hrec
    rw [List.append_assoc, ← List.map_append] at hrec
    rw [List.replicate_succ, Stage.steps]
    refine Eq.trans ?_ hrec
    rw [← step_eq hpath]
    rfl

/-- The schedule in which each worker in turn takes all its steps. -/
def inTurn (order : List Nat) : List Nat := order.flatMap (List.replicate 5)

theorem five_le_count_inTurn {order : List Nat} (h : i ∈ order) : 5 ≤ (inTurn order).count i := by
  obtain ⟨before, after, rfl⟩ := List.append_of_mem h
  rw [inTurn, List.flatMap_append, List.flatMap_cons, List.count_append, List.count_append,
    List.count_replicate_self]
  omega

/-- Workers that work in turn make the attempts of the batch, one after the other. -/
theorem results_inTurn (disk : σ) (hstdin : options.files.countP isStandardInput ≤ 1)
    {order : List Nat} (hnodup : order.Nodup) (w : Work)
    (hfresh : ∀ i ∈ order, ∃ path, options.files[i]? = some path ∧ w.stage i = .waiting ∧
      (isStandardInput path = true → w.shared.stdin = stdin)) :
    (w.run options disk (inTurn order)).results = w.results ++ order.zip
      (Batch.attempts options w.shared.registry
        (order.filterMap fun i => options.files[i]?.map (source disk stdin))) := by
  induction order generalizing w with
  | nil => exact (List.append_nil _).symm
  | cons i order ih =>
    obtain ⟨⟨path, hpath, hwaiting, hready⟩, hothers⟩ := List.forall_mem_cons.1 hfresh
    obtain ⟨hnot, hnodup⟩ := List.nodup_cons.1 hnodup
    obtain ⟨rest, hrest, hsteps⟩ := Stage.steps_waiting options disk w.shared hready
    let done : Work :=
      ⟨⟨(attempt options w.shared.registry (source disk stdin path)).2, rest⟩,
        Function.update w.stage i .joined,
        w.results ++ [(i, (attempt options w.shared.registry (source disk stdin path)).1)]⟩
    have hturn : w.run options disk (List.replicate 5 i) = done := by
      rw [run_replicate hpath, hwaiting, hsteps]
      rfl
    have hlater : ∀ j ∈ order, ∃ path', options.files[j]? = some path' ∧
        done.stage j = .waiting ∧
          (isStandardInput path' = true → done.shared.stdin = stdin) := by
      intro j hj
      obtain ⟨path', hpath', hwaiting', hready'⟩ := hothers j hj
      have hne : j ≠ i := fun hji => hnot (hji ▸ hj)
      refine ⟨path', hpath', (Function.update_of_ne hne ..).trans hwaiting', fun hp => ?_⟩
      exact (hrest (not_isStandardInput_of_ne hstdin hpath' hpath hne hp)).trans (hready' hp)
    have hrec := ih hnodup done hlater
    rw [inTurn, List.flatMap_cons, run_append, hturn, List.filterMap_cons, hpath]
    refine hrec.trans ?_
    rw [List.append_assoc]
    rfl

end Work

/-! ### The sources -/

theorem gather_of_none {paths : List String} (h : ∀ p ∈ paths, isStandardInput p = false)
    (other : Content) : gather disk other paths = paths.map (source disk stdin) := by
  induction paths with
  | nil => rfl
  | cons path paths ih =>
    obtain ⟨hpath, hpaths⟩ := List.forall_mem_cons.1 h
    rw [gather, hpath, if_neg Bool.false_ne_true, ih hpaths, List.map_cons, source, hpath,
      if_neg Bool.false_ne_true]

/-- If the standard input is asked for once, it is all there. -/
theorem gather_eq {paths : List String} (h : paths.countP isStandardInput ≤ 1) :
    gather disk stdin paths = paths.map (source disk stdin) := by
  have hpairwise := pairwise_of_countP_le_one h
  clear h
  induction paths with
  | nil => rfl
  | cons path paths ih =>
    obtain ⟨hpath, hpaths⟩ := List.pairwise_cons.1 hpairwise
    rw [gather]
    split
    · next hstdin =>
      rw [gather_of_none (fun q hq => hpath q hq hstdin), List.map_cons, source, if_pos hstdin]
    · next hstdin => rw [ih hpaths, List.map_cons, source, if_neg hstdin]

/-- The attempts of a batch are the results of workers that work in turn. -/
theorem Work.attempts_inTurn (hstdin : options.files.countP isStandardInput ≤ 1)
    {order : List Nat} (horder : order.Perm (List.range options.files.length)) :
    ((start stdin).run options disk (inTurn order)).attempts options =
      attemptsIn options order (gather disk stdin options.files) := by
  have hfresh : ∀ i ∈ order, ∃ path, options.files[i]? = some path ∧
      (start stdin).stage i = .waiting ∧ (isStandardInput path = true → stdin = stdin) := by
    intro i hi
    have hlt := List.mem_range.1 (horder.mem_iff.1 hi)
    exact ⟨_, List.getElem?_eq_getElem hlt, rfl, fun _ => rfl⟩
  have hnodup := horder.nodup_iff.2 List.nodup_range
  have hresults := results_inTurn disk hstdin hnodup (start stdin) hfresh
  rw [attempts, hresults, attemptsIn, gather_eq hstdin, List.length_map]
  simp only [List.getElem?_map]
  rfl

end SqlFormatter.Batch
