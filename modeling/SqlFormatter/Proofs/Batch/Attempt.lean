import SqlFormatter.Batch.Run
import SqlFormatter.Proofs.Grammar.Progress
import SqlFormatter.Proofs.Grammar.Relocation
import SqlFormatter.Proofs.Layout.Confluence
import SqlFormatter.Proofs.Source.Registry

/-!
# SqlFormatter.Proofs.Batch.Attempt

What comes of one source of a batch. The registry that a source is registered with settles where its
positions are and nothing else: the text for the output is the same in all registries, and so is the
error up to positions, with the location that it names (`Parsed.shape_settle`).

`alone` is what comes of a source with a registry of its own.
-/

namespace SqlFormatter

theorem Statement.layout_moved (style : Style) (f : Nat → Nat) (s : Statement) :
    (s.moved f).layout style = s.layout style := by
  rw [layout_shape, shape_moved, commentTexts_moved, ← layout_shape]

/-- A text is parsed in all places of the position space in the same way: the outcome is that at
position 0, moved there, and the lines that the file knows after that are the same. -/
theorem exists_parseText (text : String) (expired : Bool) :
    ∃ result lines, (∀ id name base,
      parseText ⟨id, name, base, byteLength text.toList, []⟩ text expired =
        .ok (Site.result ⟨id, name, base⟩ result,
          ⟨id, name, base, byteLength text.toList, lines⟩)) ∧
      ∀ e, result = .error e → e.pos ≤ byteLength text.toList := by
  let origin : File := ⟨0, "", 0, byteLength text.toList, []⟩
  obtain ⟨scanner, hscanner⟩ : ∃ s, Scanner.ofText origin text expired = .ok s :=
    Scanner.exists_ofText expired rfl
  let parser : Parser := { scanner }
  have hcovers := Parser.covers_parse (p := parser)
    (Scanner.covers_ofText hscanner List.nil_prefix (File.knows_nil rfl))
  obtain ⟨-, -, hbase, hsize⟩ := File.unread_eq_iff.1 hcovers.informed.1
  refine ⟨parser.parse.1, parser.parse.2.scanner.file.laterLines, fun id name base => ?_,
    fun e he => ?_⟩
  · have hmoved := parseText_moved ⟨id, name, base⟩ origin text expired
    have hfile : parser.parse.2.scanner.file.moved ⟨id, name, base⟩ =
        ⟨id, name, base, byteLength text.toList, parser.parse.2.scanner.file.laterLines⟩ := by
      rw [File.moved, hbase, hsize]
      rfl
    rw [parseText_eq hscanner, Except.map, hfile] at hmoved
    exact hmoved
  · have hplace : e.pos ∈ outcomePlaces parser.parse.1 := by
      rw [he]
      exact List.mem_singleton_self _
    obtain ⟨o, ho, hpos, -⟩ := hcovers.locateOffset rfl e.pos (List.mem_append_right _ hplace)
    rw [hpos]
    exact Nat.le_trans (Nat.le_of_eq (Nat.zero_add o)) ho

namespace Batch

/-- The error with its positions put nowhere. -/
def Error.shape : Error → Error
  | refused path location (.refused error) =>
    refused path location (.refused (error.moved fun _ => nowhere))
  | error => error

/-- What came of a source, up to positions. -/
def shapeOf (result : Except Error String) : Except Error String := result.mapError Error.shape

/-- The error for a source that gives no statement, with the location that the registry tells. -/
def refusal (r : Registry) (path : String) (error : LoadError) : Error :=
  .refused path (((r.locate? error.pos).map Location.text).getD path) error

/-- What comes of a source of so many bytes whose text has been parsed, by the registry. -/
def settle (options : Options) (r : Registry) (path : String) (bytes : Nat) :
    Except ParseError Statement → Attempt
  | .ok s =>
    { result := .ok (options.render s)
      events := [.read path bytes, .parsed (sourceName path) s] }
  | .error error =>
    { result := .error (refusal r path (.refused error)), events := [.read path bytes] }

/-- The registry has the file of this name and text as it was registered. -/
structure Registered (r : Registry) (name text : String) (f : File) : Prop where
  mem : f ∈ r.files
  eq : f = ⟨f.id, name, f.base, byteLength text.toList, []⟩

/-- The text has been parsed as that of a file of this name, and the registry has the file with the
lines known by then. -/
structure Parsed (r : Registry) (name text : String) (expired : Bool) (g : File)
    (result : Except ParseError Statement) : Prop where
  mem : g ∈ r.files
  parse : ∃ id base,
    parseText ⟨id, name, base, byteLength text.toList, []⟩ text expired = .ok (result, g)

variable {options : Options} {r r' : Registry} {path text name : String} {expired : Bool}
  {f g g' : File} {result result' : Except ParseError Statement} {n n' : Nat}

theorem registered_of_register
    (h : r.register name none (byteLength text.toList) = .ok (f, r')) :
    Registered r' name text f := by
  obtain ⟨hf, hfiles, -⟩ := Registry.register_eq_ok h
  refine ⟨?_, by rw [hf]⟩
  rw [hfiles]
  exact List.mem_append_right _ (List.mem_singleton_self f)

/-- A file that is registered can be parsed. -/
theorem Registered.parse (hr : r.Ordered) (h : Registered r name text f) (expired : Bool) :
    ∃ result g, parseText f text expired = .ok (result, g) ∧ g.unread = f.unread ∧
      Parsed (r.update g) name text expired g result := by
  obtain ⟨result, lines, hparse, -⟩ := exists_parseText text expired
  have hrun := hparse f.id name f.base
  rw [← h.eq] at hrun
  have hunread : File.unread ⟨f.id, name, f.base, byteLength text.toList, lines⟩ = f.unread := by
    rw [h.eq]
    rfl
  refine ⟨_, _, hrun, hunread, hr.mem_update h.mem hunread, f.id, f.base, ?_⟩
  rw [← h.eq, hrun]

/-- What comes of a parsed text does not depend on the registry. -/
theorem Parsed.shape_settle (hdump : options.dumpTree = false) (hr : r.Ordered) (hr' : r'.Ordered)
    (h : Parsed r name text expired g result) (h' : Parsed r' name text expired g' result') :
    shapeOf (settle options r path n result).result =
      shapeOf (settle options r' path n' result').result := by
  obtain ⟨origin, lines, hparse, hpos⟩ := exists_parseText text expired
  -- Both are what comes of the outcome at position 0, by the lines of the text.
  suffices hsettle : ∀ {r : Registry} {g n result}, r.Ordered →
      Parsed r name text expired g result →
      shapeOf (settle options r path n result).result = match origin with
        | .ok s => .ok (s.layout options.style)
        | .error e => .error (.refused path
            (File.locateOffset ⟨0, name, 0, byteLength text.toList, lines⟩ e.pos).text
            (.refused (e.moved fun _ => nowhere))) by
    rw [hsettle hr h, hsettle hr' h']
  clear hr h hr' h'
  intro r g n result hr h
  obtain ⟨hmem, id, base, hrun⟩ := h
  rw [hparse] at hrun
  cases hrun
  cases origin with
  | ok s =>
    change shapeOf (.ok (options.render (s.moved _))) = _
    rw [Options.render, hdump, if_neg Bool.false_ne_true, Statement.layout_moved]
    rfl
  | error e =>
    change shapeOf (.error (refusal r path (.refused (e.moved _)))) = _
    have howns : File.Owns ⟨id, name, base, byteLength text.toList, lines⟩ (base + e.pos) :=
      ⟨Nat.le_add_right .., Nat.add_le_add_left (hpos e rfl) _⟩
    have hplace : (LoadError.refused (e.moved (Site.shift ⟨id, name, base⟩))).pos = base + e.pos :=
      e.pos_moved _
    rw [refusal, hplace, hr.locate?_of_owns hmem howns, Nat.add_sub_cancel_left]
    simp only [shapeOf, Except.mapError, Error.shape, ParseError.moved_moved]
    rfl

/-- An error that is not in the text has the path for its location in all registries. -/
theorem refusal_of_not_isInText (hr : r.Ordered) {error : LoadError}
    (h : error.isInText = false) : refusal r path error = .refused path path error := by
  have hpos : error.pos = nowhere := by
    cases error with
    | refused e => cases h
    | notUtf8 | unreadable => rfl
  rw [refusal, hpos, hr.locate?_nowhere]
  rfl

/-! ### Attempts -/

section Attempt

variable {input : Input} {bytes : List UInt8}

theorem attempt_of_fault {fault : IoFault} (h : input.content = .error fault) :
    attempt options r input = ({ result := .error (.io input.path fault) }, r) := by
  rw [attempt, h]

theorem attempt_of_not_utf8 {fault : Utf8Fault} (h : input.content = .ok bytes)
    (hdecode : decodeUtf8 bytes = .error fault) :
    attempt options r input =
      ({ result := .error (refusal r input.path (.notUtf8 none fault))
         events := [.read input.path bytes.length] }, r) := by
  rw [attempt, h]
  simp only [Registry.loadBytes, hdecode]
  rfl

theorem attempt_of_violation {violation : Violation} (h : input.content = .ok bytes)
    (hdecode : decodeUtf8 bytes = .ok text)
    (hregister : r.register (sourceName input.path) none (byteLength text.toList) =
      .error violation) :
    attempt options r input =
      ({ result := .error (.broken violation), events := [.read input.path bytes.length] }, r) := by
  rw [attempt, h]
  simp only [Registry.loadBytes, hdecode, Registry.loadText, hregister]
  rfl

theorem attempt_of_text (h : input.content = .ok bytes) (hdecode : decodeUtf8 bytes = .ok text)
    (hregister : r.register (sourceName input.path) none (byteLength text.toList) = .ok (f, r'))
    (hparse : parseText f text options.expired = .ok (result, g)) :
    attempt options r input =
      (settle options (r'.update g) input.path bytes.length result, r'.update g) := by
  have hload : r.loadBytes (sourceName input.path) bytes none options.expired =
      .ok (result.mapError .refused, r'.update g) := by
    simp only [Registry.loadBytes, hdecode, Registry.loadText, hregister]
    change (parseText f text options.expired >>= fun p =>
      .ok (p.1.mapError LoadError.refused, r'.update p.2)) = _
    rw [hparse]
    rfl
  rw [attempt, h]
  dsimp only
  rw [hload]
  cases result <;> rfl

end Attempt

/-! ### Sources with a registry of their own -/

/-- What comes of a source with a registry of its own. -/
def alone (options : Options) (input : Input) : Except Error String :=
  (attempt options .empty input).1.result

/-- The number of positions that a source takes: none if it is no text. -/
def positions (content : Content) : Nat :=
  match content.toOption.bind fun bytes => (decodeUtf8 bytes).toOption with
  | none => 0
  | some text => byteLength text.toList + 1

theorem positions_of_text {bytes : List UInt8} (hdecode : decodeUtf8 bytes = .ok text) :
    positions (.ok bytes) = byteLength text.toList + 1 := by
  simp only [positions, Except.toOption, Option.bind_some, hdecode]

variable {input : Input} {bytes : List UInt8}

/-- A parsed text comes to what it comes to alone. -/
theorem Parsed.shape_alone (hdump : options.dumpTree = false) (hr : r.Ordered)
    (hcontent : input.content = .ok bytes) (hdecode : decodeUtf8 bytes = .ok text)
    (hroom : positions input.content < maxPos)
    (h : Parsed r (sourceName input.path) text options.expired g result) :
    shapeOf (settle options r input.path n result).result = shapeOf (alone options input) := by
  rw [hcontent, positions_of_text hdecode] at hroom
  have hfirst : Registry.empty.nextBase + byteLength text.toList + 1 ≤ maxPos := by
    change 1 + byteLength text.toList + 1 ≤ maxPos
    omega
  obtain ⟨f, r₁, hregister⟩ : ∃ f r₁, Registry.empty.register (sourceName input.path) none
      (byteLength text.toList) = .ok (f, r₁) := Registry.register_eq_of_room hfirst
  have hordered := Registry.ordered_empty.register hregister
  have hregistered := registered_of_register hregister
  obtain ⟨result', g', hparse, hunread, hparsed⟩ := hregistered.parse hordered options.expired
  rw [alone, attempt_of_text hcontent hdecode hregister hparse]
  exact h.shape_settle hdump hr (hordered.update hregistered.mem hunread) hparsed

end Batch

end SqlFormatter
