import SqlFormatter.Batch.Run
import SqlFormatter.CommandLine.Report
import SqlFormatter.CommandLine.Request
import SqlFormatter.Disk

/-!
# SqlFormatter.CommandLine.Execution

What a call of the program does: its exit code, its texts, and what there is in files after it.
-/

namespace SqlFormatter.CommandLine

/-- What a call of the program answers. -/
structure Answer where
  /-- The exit code. -/
  code : Nat
  /-- The text on the standard output. -/
  stdout : String := ""
  /-- The text on the standard error output. -/
  stderr : String := ""
  deriving DecidableEq, Repr

/-- The answer to a command line that does not lead to a batch. -/
def Stop.answer : Stop → Answer
  | misuse => { code := 2, stderr := misuseText }
  | help => { code := 0, stdout := helpText }
  | version => { code := 0, stdout := versionText }

/-- The answer for a batch: first the log, then the report if something went wrong. -/
def Request.answer (r : Request) (stdout : String) (events : List Batch.Event)
    (result : Except Batch.Error Batch.Summary) : Answer :=
  let log := Batch.logText r.verbose (.started r.options.files.length :: events)
  match result with
  | .error error => { code := 1, stdout, stderr := log ++ batchErrorText error }
  | .ok summary =>
    if summary.failed = 0 then { code := 0, stdout, stderr := log }
    else { code := 1, stdout, stderr := log ++ failedText summary }

/-- Calls the program with the arguments, the environment and the standard input, on these files. -/
def execute {σ : Type} [FileSystem σ] (env : String → Option String) (args : List String) (disk : σ)
    (stdin : List UInt8) : Answer × σ :=
  match request env args with
  | .error stop => (stop.answer, disk)
  | .ok r =>
    let run := Batch.run r.options disk stdin
    (r.answer run.stdout run.events run.result, run.disk)

/-- The program is asked for a statement in a file that is not there. -/
example : execute (fun _ => none) ["/work/q.sql"] ({} : Disk) [] =
    ({ code := 1
       stderr := "Error: IO error on '/work/q.sql': No such file or directory (os error 2)" ++
         "\n\nCaused by:\n    No such file or directory (os error 2)\n" }, {}) := by
  decide +kernel

end SqlFormatter.CommandLine
