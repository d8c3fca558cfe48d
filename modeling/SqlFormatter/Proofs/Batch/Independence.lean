import SqlFormatter.Disk
import SqlFormatter.Proofs.Batch.Turns

/-!
# SqlFormatter.Proofs.Batch.Independence

A batch does not depend on the order in which its workers take their steps: it ends as if each
source had been formatted alone (`AsIfAlone`), up to the positions in an error. That is so whatever
files there are, and however they are read and written. The main result is `run_as_if_alone`.
-/

namespace SqlFormatter.Batch

variable {σ : Type} [FileSystem σ] {options : Options} {disk : σ} {stdin : Content}

/-! ### Collecting the results -/

/-- The texts among the results, in order. -/
def texts (results : List (Except Error String)) : List String :=
  results.filterMap Except.toOption

/-- The texts for the output, one after the other. -/
def joinTexts (results : List (Except Error String)) : String :=
  String.join ((texts results).map withNewline)

/-- Whether there is a text in each of the results. -/
def AllTexts (results : List (Except Error String)) : Prop :=
  ∀ r ∈ results, ∃ text, r = .ok text

/-- The summary counts the sources, and those with a text. -/
structure Summary.Counts (s : Summary) (results : List (Except Error String)) : Prop where
  files : s.files = results.length
  formatted : s.formatted = (texts results).length
  failed : s.files = s.formatted + s.failed

/-- The first error ends a batch that does not go on after errors. -/
theorem collect_of_error (hkeep : options.keepGoing = false) {results : List (Except Error String)}
    {i : Nat} {error : Error} (herror : results[i]? = some (.error error))
    (hbefore : ∀ j < i, ∃ text, results[j]? = some (.ok text)) :
    collect options results = .error error := by
  induction results generalizing i with
  | nil => cases herror
  | cons r results ih =>
    cases i with
    | zero =>
      cases herror
      rw [collect, hkeep, if_neg Bool.false_ne_true]
    | succ i =>
      obtain ⟨text, htext⟩ := hbefore 0 (Nat.succ_pos i)
      cases htext
      rw [collect, ih herror fun j hj => hbefore (j + 1) (Nat.succ_lt_succ hj)]
      rfl

/-- What a batch collects that gets to its end. -/
theorem collect_of_all {results : List (Except Error String)}
    (h : options.keepGoing = true ∨ AllTexts results) :
    ∃ o, collect options results = .ok o ∧ o.text = joinTexts results ∧
      o.summary.Counts results := by
  induction results with
  | nil => exact ⟨{}, rfl, rfl, rfl, rfl, rfl⟩
  | cons r results ih =>
    have hothers : options.keepGoing = true ∨ AllTexts results :=
      h.imp_right fun hall => (List.forall_mem_cons.1 hall).2
    obtain ⟨o, ho, htext, hfiles, hformatted, hfailed⟩ := ih hothers
    cases r with
    | ok text =>
      refine ⟨o.addText text, by rw [collect, ho]; rfl, ?_, congrArg (· + 1) hfiles,
        congrArg (· + 1) hformatted, ?_⟩
      · rw [Output.addText, htext]
        exact (String.join_cons ..).symm
      · dsimp only [Output.addText]
        omega
    | error error =>
      have hkeep : options.keepGoing = true := by
        rcases h with h | h
        · exact h
        · obtain ⟨text, htext⟩ := h _ List.mem_cons_self
          cases htext
      refine ⟨o.addFailure error, by rw [collect, if_pos hkeep, ho]; rfl, htext,
        congrArg (· + 1) hfiles, hformatted, ?_⟩
      dsimp only [Output.addFailure]
      omega

/-! ### The end of a batch -/

/-- Only the text has been written, and it has been written where it was asked for. -/
def Run.Writes (run : Run σ) (options : Options) (disk : σ) (text : String) : Prop :=
  match options.output with
  | none => run.stdout = text ∧ run.disk = disk
  | some path =>
    run.stdout = "" ∧ FileSystem.write disk path (encodeUtf8 text) = (.ok (), run.disk)

theorem conclude_of_error (disk : σ) {done : List Attempt} {error : Error}
    (h : collect options (done.map Attempt.result) = .error error) :
    (conclude options disk done).result = .error error ∧
      (conclude options disk done).disk = disk ∧ (conclude options disk done).stdout = "" := by
  unfold conclude prepare
  rw [h]
  exact ⟨rfl, rfl, rfl⟩

theorem conclude_of_ok {done : List Attempt} {o : Output}
    (h : collect options (done.map Attempt.result) = .ok o)
    (hwrite : ∀ path ∈ options.output,
      ∃ disk', FileSystem.write disk path (encodeUtf8 o.text) = (.ok (), disk')) :
    (conclude options disk done).result = .ok o.summary ∧
      (conclude options disk done).Writes options disk o.text := by
  unfold conclude prepare Run.Writes
  rw [h]
  cases hpath : options.output with
  | none => exact ⟨rfl, rfl, rfl⟩
  | some path =>
    obtain ⟨disk', hdisk⟩ := hwrite path hpath
    dsimp only
    rw [hdisk]
    exact ⟨rfl, rfl, rfl⟩

/-- A batch that ends as its options ask for when the sources come to these results one by one. -/
structure AsIfAlone (options : Options) (disk : σ) (results : List (Except Error String))
    (run : Run σ) : Prop where
  /-- The first source that fails ends the batch with its error, and nothing is written. -/
  stopped : options.keepGoing = false → ∀ (i : Nat) (error : Error),
    results[i]? = some (.error error) → (∀ j < i, ∃ text, results[j]? = some (.ok text)) →
    ∃ error' : Error, run.result = .error error' ∧ error'.shape = error.shape ∧
      run.disk = disk ∧ run.stdout = ""
  /-- If no source fails, or none may end the batch, the texts are written and counted. -/
  finished : options.keepGoing = true ∨ AllTexts results →
    (∀ path ∈ options.output,
      ∃ disk', FileSystem.write disk path (encodeUtf8 (joinTexts results)) = (.ok (), disk')) →
    ∃ summary, run.result = .ok summary ∧ summary.Counts results ∧
      run.Writes options disk (joinTexts results)

/-! ### Results up to positions -/

section Shape

variable {results results' : List (Except Error String)}
  (h : results'.map shapeOf = results.map shapeOf)

include h

theorem texts_of_shape : texts results' = texts results := by
  have htexts : ∀ rs : List (Except Error String), texts rs = texts (rs.map shapeOf) := by
    intro rs
    rw [texts, texts, List.filterMap_map]
    exact congrArg (List.filterMap · rs) (funext fun r => by cases r <;> rfl)
  rw [htexts results', h, ← htexts]

theorem getElem?_of_shape {i : Nat} {r : Except Error String} (hr : results[i]? = some r) :
    ∃ r', results'[i]? = some r' ∧ shapeOf r' = shapeOf r := by
  have hi := congrArg (·[i]?) h
  simp only [List.getElem?_map, hr, Option.map_some] at hi
  exact Option.map_eq_some_iff.1 hi

theorem allTexts_of_shape (hall : AllTexts results) : AllTexts results' := by
  intro r' hr'
  have hmem : shapeOf r' ∈ results.map shapeOf := h ▸ List.mem_map_of_mem hr'
  obtain ⟨r, hr, hshape⟩ := List.mem_map.1 hmem
  obtain ⟨text, rfl⟩ := hall r hr
  cases r' with
  | ok text' => exact ⟨text', rfl⟩
  | error error => cases hshape

end Shape

/-- How a batch ends depends on its results up to positions only. -/
theorem asIfAlone_of_shape {results : List (Except Error String)} {done : List Attempt}
    (h : done.map (fun a => shapeOf a.result) = results.map shapeOf) :
    AsIfAlone options disk results (conclude options disk done) := by
  have hresults : (done.map Attempt.result).map shapeOf = results.map shapeOf := by
    rw [List.map_map]
    exact h
  constructor
  · intro hkeep i error herror hbefore
    obtain ⟨r, hr, hshape⟩ := getElem?_of_shape hresults herror
    cases r with
    | ok text => cases hshape
    | error error' =>
      have hcollect := collect_of_error hkeep hr fun j hj => by
        obtain ⟨text, htext⟩ := hbefore j hj
        obtain ⟨r, hr, hsame⟩ := getElem?_of_shape hresults htext
        cases r with
        | ok text' => exact ⟨text', hr⟩
        | error e => cases hsame
      obtain ⟨hresult, hdisk, hstdout⟩ := conclude_of_error disk hcollect
      exact ⟨error', hresult, Except.error.inj hshape, hdisk, hstdout⟩
  · intro hall hwrite
    obtain ⟨o, ho, htext, hfiles, hformatted, hfailed⟩ := collect_of_all
      (hall.imp_right (allTexts_of_shape hresults))
    have hlength : (done.map Attempt.result).length = results.length := by
      rw [← List.length_map (f := shapeOf), hresults, List.length_map]
    rw [hlength] at hfiles
    rw [texts_of_shape hresults] at hformatted
    rw [joinTexts, texts_of_shape hresults, ← joinTexts] at htext
    rw [← htext] at hwrite ⊢
    obtain ⟨hresult, hwrites⟩ := conclude_of_ok ho hwrite
    exact ⟨o.summary, hresult, ⟨hfiles, hformatted, hfailed⟩, hwrites⟩

/-! ### Any order -/

/-- A batch ends as if each of its sources had been formatted alone, in whatever order its workers
take their steps, be it in turn or not; and it does end, as soon as each of them has taken five. How
the files are found, read and written makes no difference. The standard input may be one of the
sources, once. All sources must fit in the position space together, as one that has no place left in
it cannot be registered. -/
theorem run_as_if_alone (hdump : options.dumpTree = false)
    (hstdin : options.files.countP isStandardInput ≤ 1) (hfits : Work.Fits options disk stdin) :
    (∀ schedule : List Nat, (∀ i < options.files.length, 5 ≤ schedule.count i) →
      ((Work.start stdin).run options disk schedule).Complete options) ∧
    (∀ schedule, ((Work.start stdin).run options disk schedule).Complete options →
      AsIfAlone options disk (options.files.map fun path => alone options (source disk stdin path))
        (conclude options disk
          (((Work.start stdin).run options disk schedule).attempts options))) ∧
    ∀ order : List Nat, order.Perm (List.range options.files.length) →
      AsIfAlone options disk (options.files.map fun path => alone options (source disk stdin path))
        (runIn order options disk stdin) := by
  have hwork : ∀ schedule, ((Work.start stdin).run options disk schedule).Complete options →
      AsIfAlone options disk (options.files.map fun path => alone options (source disk stdin path))
        (conclude options disk
          (((Work.start stdin).run options disk schedule).attempts options)) := by
    intro schedule hcomplete
    refine asIfAlone_of_shape ?_
    rw [List.map_map]
    exact (Work.sound_run hdump hstdin hfits schedule).shape_attempts hcomplete
  refine ⟨fun schedule h => Work.complete_run h, hwork, fun order horder => ?_⟩
  rw [runIn, ← Work.attempts_inTurn hstdin horder]
  refine hwork _ (Work.complete_run fun i hi => Work.five_le_count_inTurn ?_)
  exact horder.mem_iff.2 (List.mem_range.2 hi)

/-- A file, and the standard input. -/
def twoSources (keepGoing : Bool) : Options where
  files := ["/tmp/a.sql", "-"]
  output := some "../tmp/out.sql"
  keepGoing := keepGoing

/-- A disk with the file. -/
def diskOfOneFile : Disk := ({} : Disk).addFile "/tmp/a.sql" (encodeUtf8 "SELECT a FROM b")

/-- A statement that ends too early, in its second line. -/
def halfStatement : Content := .ok (encodeUtf8 "SELECT c\nFROM")

/-- What comes of the two alone. -/
def resultsAlone : List (Except Error String) :=
  [.ok "SELECT\n    a\nFROM\n    b\n;",
    .error (.refused "-" "<stdin>:2:5"
      (.refused (.unexpected (.token .ident) ⟨14, .endOfInput, ""⟩)))]

/-- In the first of these the standard input is registered last, and its error ends the batch. In
the second one it is first, and left out; the text of the file is written. -/
theorem run_as_if_alone_two_sources :
    AsIfAlone (twoSources false) diskOfOneFile resultsAlone
        (conclude (twoSources false) diskOfOneFile
          (((Work.start halfStatement).run (twoSources false) diskOfOneFile
            [0, 1, 0, 0, 1, 1, 0, 1, 1, 0]).attempts (twoSources false))) ∧
      ∃ summary,
        (runIn [1, 0] (twoSources true) diskOfOneFile halfStatement).result = .ok summary ∧
          summary.Counts resultsAlone ∧
          (runIn [1, 0] (twoSources true) diskOfOneFile halfStatement).disk.read "/tmp/out.sql" =
            .ok (encodeUtf8 "SELECT\n    a\nFROM\n    b\n;\n") := by
  have hfits : ∀ keepGoing, Work.Fits (twoSources keepGoing) diskOfOneFile halfStatement := by
    unfold Work.Fits
    decide +kernel
  have halone : ∀ keepGoing, ((twoSources keepGoing).files.map fun path =>
      alone (twoSources keepGoing) (source diskOfOneFile halfStatement path)) = resultsAlone := by
    decide +kernel
  obtain ⟨hcomplete, hsteps, -⟩ := @run_as_if_alone Disk _ (twoSources false) diskOfOneFile
    halfStatement rfl (by decide) (hfits false)
  obtain ⟨-, -, hturns⟩ := @run_as_if_alone Disk _ (twoSources true) diskOfOneFile
    halfStatement rfl (by decide) (hfits true)
  rw [halone] at hsteps hturns
  -- The text is written behind the file, in the same directory.
  let after : Disk := { diskOfOneFile with
    files := diskOfOneFile.files ++
      [(["tmp", "out.sql"], encodeUtf8 "SELECT\n    a\nFROM\n    b\n;\n")] }
  have hwrite : FileSystem.write diskOfOneFile "../tmp/out.sql"
      (encodeUtf8 (joinTexts resultsAlone)) = (.ok (), after) := by decide +kernel
  obtain ⟨summary, hresult, hcounts, -, hwritten⟩ := (hturns [1, 0] (by decide)).finished (.inl rfl)
    (fun path hpath => by cases hpath; exact ⟨after, hwrite⟩)
  rw [hwrite] at hwritten
  refine ⟨hsteps _ (hcomplete _ (by decide)), summary, hresult, hcounts, ?_⟩
  rw [← (Prod.mk.inj hwritten).2]
  decide +kernel

end SqlFormatter.Batch
