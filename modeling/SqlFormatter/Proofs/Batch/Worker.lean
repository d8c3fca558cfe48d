import SqlFormatter.Proofs.Batch.Attempt

/-!
# SqlFormatter.Proofs.Batch.Worker

The worker for one source of a batch. It reads the source, registers it, parses it, and then tells
what came of it, which is where it looks up the place of an error; last, the batch takes up the
result. Each of these is one step (`Stage.next`), and between two of them other workers may do what
they like with all but the file of this one. `Stage.Leads` is what one step does, to the worker and
to what all of them share.
What files there are, and how they are read, is left open.
-/

namespace SqlFormatter.Batch

/-- How far a worker has come. -/
inductive Stage where
  /-- The source is to be read. -/
  | waiting
  /-- The source has been read. -/
  | read (content : Content)
  /-- The source is so many bytes, which are this text, and the file has been registered for it. -/
  | registered (bytes : Nat) (text : String) (file : File)
  /-- The text has been parsed, and the file knows the lines read. -/
  | parsed (bytes : Nat) (file : File) (result : Except ParseError Statement)
  /-- It is settled what comes of the source. -/
  | done (attempt : Attempt)
  /-- The batch has taken up the result. -/
  | joined

/-- What the workers share. -/
structure Shared where
  /-- The registry. -/
  registry : Registry := .empty
  /-- What is left of the standard input, or why it cannot be read. -/
  stdin : Content

variable {σ : Type} [FileSystem σ]

namespace Stage

/-- The next step of the worker for the source at the path. -/
def next (options : Options) (disk : σ) (path : String) (s : Shared) : Stage → Stage × Shared
  | waiting =>
    if isStandardInput path then (read s.stdin, { s with stdin := .ok [] })
    else (read (FileSystem.read disk path), s)
  | read (.error fault) => (done { result := .error (.io path fault) }, s)
  | read (.ok bytes) =>
    match decodeUtf8 bytes with
    | .error fault =>
      (done { result := .error (refusal s.registry path (.notUtf8 none fault))
              events := [.read path bytes.length] }, s)
    | .ok text =>
      match s.registry.register (sourceName path) none (byteLength text.toList) with
      | .error violation =>
        (done { result := .error (.broken violation), events := [.read path bytes.length] }, s)
      | .ok (file, registry) => (registered bytes.length text file, { s with registry })
  | registered bytes text file =>
    match parseText file text options.expired with
    | .error violation =>
      (done { result := .error (.broken violation), events := [.read path bytes] }, s)
    | .ok (result, file) =>
      (parsed bytes file result, { s with registry := s.registry.update file })
  | parsed bytes _ result => (done (settle options s.registry path bytes result), s)
  | done _ => (joined, s)
  | joined => (joined, s)

/-- The file that the worker has registered and not yet finished with. -/
def file? : Stage → Option File
  | registered _ _ file | parsed _ file _ => some file
  | _ => none

/-- What the batch takes up at the next step. -/
def attempt? : Stage → Option Attempt
  | done attempt => some attempt
  | _ => none

/-- Of so many positions those that the worker may still ask for. -/
def owed (positions : Nat) : Stage → Nat
  | waiting | read _ => positions
  | _ => 0

/-- The number of steps still to be taken. -/
def stepsLeft : Stage → Nat
  | waiting => 5
  | read _ => 4
  | registered .. => 3
  | parsed .. => 2
  | done _ => 1
  | joined => 0

theorem stepsLeft_next (options : Options) (disk : σ) (path : String) (s : Shared)
    (stage : Stage) : (stage.next options disk path s).1.stepsLeft ≤ stage.stepsLeft - 1 := by
  fun_cases next options disk path s stage <;> simp only [stepsLeft] <;> omega

/-- A worker has no more steps to take only if its result has been taken up. -/
theorem attempt?_of_stepsLeft_next {options : Options} {disk : σ} {path : String} {s : Shared}
    {stage : Stage} (h : (stage.next options disk path s).1.stepsLeft = 0) :
    stage.stepsLeft = 0 ∨ ∃ attempt, stage.attempt? = some attempt := by
  revert h
  fun_cases next options disk path s stage <;> simp [stepsLeft, attempt?]

end Stage

/-- The source at the path, when the standard input is all there. -/
def source (disk : σ) (stdin : Content) (path : String) : Input where
  path := path
  content := if isStandardInput path then stdin else FileSystem.read disk path

/-- The source is this text. -/
def Input.IsText (input : Input) (text : String) : Prop :=
  ∃ bytes, input.content = .ok bytes ∧ decodeUtf8 bytes = .ok text

/-- What the workers go by, one of them having come this far with the source. -/
def Stage.Sound (options : Options) (stdin : Content) (input : Input)
    (s : Shared) : Stage → Prop
  | waiting => isStandardInput input.path = true → s.stdin = stdin
  | read content => content = input.content
  | registered _ text file =>
    input.IsText text ∧ Registered s.registry (sourceName input.path) text file
  | parsed _ file result => ∃ text, input.IsText text ∧
    Parsed s.registry (sourceName input.path) text options.expired file result
  | done attempt => shapeOf attempt.result = shapeOf (alone options input)
  | joined => True

/-- What a step of a worker does, to itself and to what is shared. -/
structure Stage.Leads (options : Options) (stdin : Content) (input : Input)
    (stage next : Stage) (s s' : Shared) : Prop where
  sound : next.Sound options stdin input s'
  ordered : s'.registry.Ordered
  /-- No file is touched but that of the worker. -/
  keeps : ∀ g ∈ s.registry.files, (∀ f ∈ stage.file?, g.id ≠ f.id) → g ∈ s'.registry.files
  /-- The file of the worker stays its file, and is no other's when it is new. -/
  own : ∀ g ∈ next.file?,
    (∃ f ∈ stage.file?, g.id = f.id) ∨ ∀ f ∈ s.registry.files, f.id ≠ g.id
  /-- Positions are used up as they are asked for. -/
  room : s'.registry.nextBase + next.owed (positions input.content) ≤
    s.registry.nextBase + stage.owed (positions input.content)
  stdin : isStandardInput input.path = false → s'.stdin = s.stdin

section Step

variable {options : Options} {disk : σ} {stdin : Content} {path : String}
  {s : Shared}

/-- A step that changes nothing that is shared. -/
theorem Stage.Leads.of_same {input : Input} {stage next : Stage} (hordered : s.registry.Ordered)
    (hsound : next.Sound options stdin input s) (hfile : next.file? = none)
    (howed : next.owed (positions input.content) ≤ stage.owed (positions input.content)) :
    stage.Leads options stdin input next s s where
  sound := hsound
  ordered := hordered
  keeps _ hg _ := hg
  own g hg := by
    rw [hfile] at hg
    cases hg
  room := Nat.add_le_add_left howed _
  stdin _ := rfl

/-- A worker reads its source. -/
theorem Stage.leads_waiting (hordered : s.registry.Ordered)
    (h : waiting.Sound options stdin (source disk stdin path) s) :
    waiting.Leads options stdin (source disk stdin path) (waiting.next options disk path s).1 s
      (waiting.next options disk path s).2 := by
  unfold next
  cases hstdin : isStandardInput path with
  | true =>
    have hcontent : (source disk stdin path).content = stdin := if_pos hstdin
    have hread : Stage.Sound options stdin (source disk stdin path) { s with stdin := .ok [] }
        (read s.stdin) := by
      rw [Sound, h hstdin, hcontent]
    exact ⟨hread, hordered, fun _ hg _ => hg, nofun, Nat.le_refl _,
      fun hnot => absurd hstdin (Bool.eq_false_iff.1 hnot)⟩
  | false =>
    have hcontent : (source disk stdin path).content = FileSystem.read disk path :=
      if_neg (Bool.eq_false_iff.1 hstdin)
    exact .of_same hordered hcontent.symm rfl (Nat.le_refl _)

/-- A text is registered, for which there is room. -/
theorem Stage.leads_read_text {input : Input} {bytes : List UInt8} {text : String}
    (hordered : s.registry.Ordered) (hcontent : input.content = .ok bytes)
    (hdecode : decodeUtf8 bytes = .ok text)
    (hroom : s.registry.nextBase + positions input.content ≤ maxPos) :
    (read (.ok bytes)).Leads options stdin input
      ((read (.ok bytes)).next options disk input.path s).1 s
      ((read (.ok bytes)).next options disk input.path s).2 := by
  rw [hcontent, positions_of_text hdecode] at hroom
  obtain ⟨f, r, hregister⟩ : ∃ f r, s.registry.register (sourceName input.path) none
      (byteLength text.toList) = .ok (f, r) := Registry.register_eq_of_room hroom
  have hnext : (read (.ok bytes)).next options disk input.path s =
      (registered bytes.length text f, { s with registry := r }) := by
    simp only [next, hdecode, hregister]
  obtain ⟨hf, hfiles, -⟩ := Registry.register_eq_ok hregister
  rw [hnext]
  refine ⟨⟨⟨bytes, hcontent, hdecode⟩, registered_of_register hregister⟩,
    hordered.register hregister, fun g hg _ => ?_, fun g hg => ?_, ?_, fun _ => rfl⟩
  · rw [hfiles]
    exact List.mem_append_left _ hg
  · cases hg
    have hid : f.id = s.registry.files.length := by rw [hf]
    exact Or.inr fun k hk => Nat.ne_of_lt (hid ▸ hordered.id_lt hk)
  · rw [hcontent, owed, positions_of_text hdecode, Registry.nextBase_of_register hregister, hf]
    exact Nat.le_refl _

/-- A source that has been read is registered, or has failed. -/
theorem Stage.leads_read {input : Input} (hordered : s.registry.Ordered)
    (hroom : s.registry.nextBase + positions input.content ≤ maxPos) :
    (read input.content).Leads options stdin input
      ((read input.content).next options disk input.path s).1 s
      ((read input.content).next options disk input.path s).2 := by
  cases hcontent : input.content with
  | error fault =>
    have halone : alone options input = .error (.io input.path fault) := by
      rw [alone, attempt_of_fault hcontent]
    exact .of_same hordered (congrArg shapeOf halone.symm) rfl (Nat.zero_le _)
  | ok bytes =>
    cases hdecode : decodeUtf8 bytes with
    | error fault =>
      have hnext : (read (.ok bytes)).next options disk input.path s =
          (done { result := .error (refusal s.registry input.path (.notUtf8 none fault))
                  events := [.read input.path bytes.length] }, s) := by
        simp only [next, hdecode]
      rw [hnext]
      refine .of_same hordered ?_ rfl (Nat.zero_le _)
      rw [Sound, alone, attempt_of_not_utf8 hcontent hdecode,
        refusal_of_not_isInText hordered rfl, refusal_of_not_isInText Registry.ordered_empty rfl]
    | ok text => exact leads_read_text hordered hcontent hdecode hroom

/-- A text that is registered is parsed. -/
theorem Stage.leads_registered {input : Input} {bytes : Nat} {text : String} {file : File}
    (hordered : s.registry.Ordered)
    (h : (registered bytes text file).Sound options stdin input s) :
    (registered bytes text file).Leads options stdin input
      ((registered bytes text file).next options disk input.path s).1 s
      ((registered bytes text file).next options disk input.path s).2 := by
  obtain ⟨htext, hregistered⟩ := h
  obtain ⟨result, g, hparse, hunread, hparsed⟩ := hregistered.parse hordered options.expired
  have hnext : (registered bytes text file).next options disk input.path s =
      (parsed bytes g result, { s with registry := s.registry.update g }) := by
    simp only [next, hparse]
  rw [hnext]
  refine ⟨⟨text, htext, hparsed⟩, hordered.update hregistered.mem hunread, fun k hk hne => ?_,
    fun k hk => ?_, ?_, fun _ => rfl⟩
  · exact (hordered.mem_update_iff hregistered.mem hunread).2 (Or.inr ⟨hk, hne file rfl⟩)
  · cases hk
    exact Or.inl ⟨file, rfl, (File.unread_eq_iff.1 hunread).1⟩
  · rw [Registry.nextBase_update]
    exact Nat.le_refl _

/-- A step of a worker, on what holds of it. -/
theorem Stage.leads_next (hdump : options.dumpTree = false) {stage : Stage}
    (hordered : s.registry.Ordered) (hsize : positions (source disk stdin path).content < maxPos)
    (hroom : s.registry.nextBase + stage.owed (positions (source disk stdin path).content) ≤ maxPos)
    (h : stage.Sound options stdin (source disk stdin path) s) :
    stage.Leads options stdin (source disk stdin path) (stage.next options disk path s).1 s
      (stage.next options disk path s).2 := by
  cases stage with
  | waiting => exact leads_waiting hordered h
  | read content =>
    obtain rfl : content = (source disk stdin path).content := h
    exact leads_read hordered hroom
  | registered bytes text file => exact leads_registered hordered h
  | parsed bytes file result =>
    obtain ⟨text, ⟨content, hcontent, hdecode⟩, hparsed⟩ := h
    exact .of_same hordered (hparsed.shape_alone hdump hordered hcontent hdecode hsize) rfl
      (Nat.le_refl _)
  | done attempt => exact .of_same hordered trivial rfl (Nat.le_refl _)
  | joined => exact .of_same hordered trivial rfl (Nat.le_refl _)

end Step

end SqlFormatter.Batch
