import SqlFormatter.Batch.Event
import SqlFormatter.Layout.Statement
import SqlFormatter.Statement.Tree

/-!
# SqlFormatter.Batch.Run

The run of a batch.

* `attempt` formats one source; `attemptsIn` does so for all, in any order, and gives the outcomes
  in the order of the sources.
* `collect` joins the outcomes. It is only after that that something is written (`conclude`).
* `runIn` is all of it, from the files that the sources are in to those with the output.
-/

namespace SqlFormatter.Batch

/-- The bytes of a source, or why it cannot be read. -/
abbrev Content := Except IoFault (List UInt8)

/-- A source as it was found. -/
structure Input where
  /-- The path that it was asked for by. -/
  path : String
  /-- What is in it. -/
  content : Content

/-- The sources at the paths. The standard input is used up by the first that reads it. -/
def gather {σ : Type} [FileSystem σ] (disk : σ) (stdin : Content) : List String → List Input
  | [] => []
  | path :: paths =>
    if isStandardInput path then ⟨path, stdin⟩ :: gather disk (.ok []) paths
    else ⟨path, FileSystem.read disk path⟩ :: gather disk stdin paths

/-! ### Formatting -/

/-- What came of a source. -/
structure Attempt where
  /-- The text for the output, or what went wrong. -/
  result : Except Error String
  /-- The log. -/
  events : List Event := []

/-- The text that the options ask for. -/
def Options.render (options : Options) (s : Statement) : String :=
  if options.dumpTree then s.tree.pretty else s.layout options.style

/-- Formats a source, and registers it. -/
def attempt (options : Options) (r : Registry) (input : Input) : Attempt × Registry :=
  match input.content with
  | .error fault => ({ result := .error (.io input.path fault) }, r)
  | .ok bytes =>
    let name := sourceName input.path
    let found := Event.read input.path bytes.length
    match r.loadBytes name bytes none options.expired with
    | .error violation => ({ result := .error (.broken violation), events := [found] }, r)
    | .ok (.error error, r) =>
      let location := ((r.locate? error.pos).map Location.text).getD input.path
      ({ result := .error (.refused input.path location error), events := [found] }, r)
    | .ok (.ok s, r) =>
      ({ result := .ok (options.render s), events := [found, .parsed name s] }, r)

/-- Formats the sources one after the other. -/
def attempts (options : Options) : Registry → List Input → List Attempt
  | _, [] => []
  | r, input :: inputs =>
    let (a, r) := attempt options r input
    a :: attempts options r inputs

/-- Formats the sources in the order in which their numbers stand in `order`, which must have each
number once. The outcomes are in the order of the sources. -/
def attemptsIn (options : Options) (order : List Nat) (inputs : List Input) : List Attempt :=
  let outcomes := order.zip (attempts options .empty (order.filterMap (inputs[·]?)))
  (List.range inputs.length).filterMap (List.lookup · outcomes)

/-! ### Output -/

/-- The text, with a newline at its end. -/
def withNewline (text : String) : String :=
  if text.toList.getLast? = some '\n' then text else text ++ "\n"

/-- What a batch writes. -/
structure Output where
  /-- The text. -/
  text : String := ""
  /-- How the batch went. -/
  summary : Summary := {}
  /-- The log. -/
  events : List Event := []

/-- The output with the text of one more source at the front. -/
def Output.addText (o : Output) (text : String) : Output where
  text := withNewline text ++ o.text
  summary := { o.summary with
    files := o.summary.files + 1, formatted := o.summary.formatted + 1 }
  events := o.events

/-- The output with one more source at the front that is left out. -/
def Output.addFailure (o : Output) (error : Error) : Output where
  text := o.text
  summary := { o.summary with files := o.summary.files + 1, failed := o.summary.failed + 1 }
  events := .skipped error :: o.events

/-- The output for all sources, or the first error that ends the batch. -/
def collect (options : Options) : List (Except Error String) → Except Error Output
  | [] => .ok {}
  | .ok text :: results => (collect options results).map (·.addText text)
  | .error error :: results =>
    if options.keepGoing then (collect options results).map (·.addFailure error)
    else .error error

/-- What is ready to be written when the sources came to this, or the error that ended the batch;
and the log. -/
def prepare (options : Options) (done : List Attempt) : Except Error Output × List Event :=
  let output := collect options (done.map Attempt.result)
  (output, done.flatMap Attempt.events ++ (output.map Output.events |>.toOption).getD [])

/-- How the batch went when the output has been written to `path`, or could not be. -/
def Output.written (o : Output) (path : String) (outcome : Except IoFault Unit) :
    Except Error Summary × List Event :=
  match outcome with
  | .ok () => (.ok o.summary, [.done o.summary])
  | .error fault => (.error (.io path fault), [])

/-- A run of a batch. -/
structure Run (σ : Type) where
  /-- How it went. -/
  result : Except Error Summary
  /-- What there is in files after it. -/
  disk : σ
  /-- The text on the standard output. -/
  stdout : String := ""
  /-- The log. -/
  events : List Event

/-- The end of a batch whose sources came to this: only now something is written. -/
def conclude {σ : Type} [FileSystem σ] (options : Options) (disk : σ) (done : List Attempt) :
    Run σ :=
  match prepare options done with
  | (.error error, events) => { result := .error error, disk, events }
  | (.ok o, events) =>
    match options.output with
    | none =>
      let (result, more) := o.written "-" (.ok ())
      { result, disk, stdout := o.text, events := events ++ more }
    | some path =>
      let (outcome, disk) := FileSystem.write disk path (encodeUtf8 o.text)
      let (result, more) := o.written path outcome
      { result, disk, events := events ++ more }

/-- Runs a batch that registers its sources in the given order. -/
def runIn {σ : Type} [FileSystem σ] (order : List Nat) (options : Options) (disk : σ)
    (stdin : Content) : Run σ :=
  conclude options disk (attemptsIn options order (gather disk stdin options.files))

/-- Runs a batch that registers its sources in the order in which they are given. -/
def run {σ : Type} [FileSystem σ] (options : Options) (disk : σ) (stdin : List UInt8) : Run σ :=
  runIn (List.range options.files.length) options disk (.ok stdin)

end SqlFormatter.Batch
