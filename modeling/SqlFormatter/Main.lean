import SqlFormatter.CommandLine.Execution

/-!
# SqlFormatter.Main

The program on a real machine: reads the sources, and writes the output and the texts of the answer.
-/

namespace SqlFormatter

/-- The fault of this number and text. Some operations give the number with a minus. -/
def IoFault.ofCode (number : UInt32) (text : String) : IoFault :=
  let code := if number < 0x80000000 then number else 0 - number
  if code = 2 then .notFound
  else if code = 20 then .notDirectory
  else if code = 21 then .isDirectory
  else if code = 36 then .nameTooLong
  else ⟨s!"{text} (os error {code})"⟩

/-- What went wrong with a real file. -/
def IoFault.ofError : IO.Error → IoFault
  | .noFileOrDirectory _ code text => .ofCode code text
  | .inappropriateType _ code text | .permissionDenied _ code text
  | .invalidArgument _ code text | .resourceExhausted _ code text
  | .noSuchThing _ code text | .alreadyExists _ code text => .ofCode code text
  | .otherError code text | .illegalOperation code text | .hardwareFault code text
  | .resourceBusy code text | .unsupportedOperation code text => .ofCode code text
  | error => ⟨toString error⟩

/-- Does what may fail with real files. -/
def attemptIO {α : Type} (action : IO α) : IO (Except IoFault α) := do
  try
    return .ok (← action)
  catch error =>
    return .error (.ofError error)

/-- Reads the sources. -/
def gatherFiles (paths : List String) : IO (List Batch.Input) :=
  paths.mapM fun path => do
    let content ← attemptIO do
      if Batch.isStandardInput path then (← IO.getStdin).readBinToEnd
      else IO.FS.readBinFile path
    return ⟨path, content.map ByteArray.toList⟩

/-- Writes the answer, and gives the exit code. -/
def CommandLine.Answer.tell (a : Answer) : IO UInt32 := do
  let out ← IO.getStdout
  out.putStr a.stdout
  out.flush
  (← IO.getStderr).putStr a.stderr
  return UInt32.ofNat a.code

/-- Runs the batch that is asked for on real files. -/
def CommandLine.Request.runFiles (r : Request) : IO Answer := do
  let inputs ← gatherFiles r.options.files
  let done := Batch.attemptsIn r.options (List.range inputs.length) inputs
  match Batch.prepare r.options done with
  | (.error error, events) => return r.answer "" events (.error error)
  | (.ok output, events) =>
    match r.options.output with
    | none =>
      let (result, more) := output.written "-" (.ok ())
      return r.answer output.text (events ++ more) result
    | some path =>
      let outcome ← attemptIO (IO.FS.writeFile path output.text)
      let (result, more) := output.written path outcome
      return r.answer "" (events ++ more) result

end SqlFormatter

open SqlFormatter

/-- Formats SQL SELECT statements. -/
def main (args : List String) : IO UInt32 := do
  let indent ← IO.getEnv "SQLFMT_INDENT"
  let timeLimit ← IO.getEnv "SQLFMT_TIMEOUT_MS"
  let env (name : String) : Option String :=
    if name = "SQLFMT_INDENT" then indent
    else if name = "SQLFMT_TIMEOUT_MS" then timeLimit
    else none
  match CommandLine.request env args with
  | .error stop => stop.answer.tell
  | .ok request => (← request.runFiles).tell
