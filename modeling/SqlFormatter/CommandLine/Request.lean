import SqlFormatter.Batch.Basic
import SqlFormatter.CommandLine.Option

/-!
# SqlFormatter.CommandLine.Request

What a command line asks for. Arguments are read from the left, and the first one that is wrong, or
that asks for help or the version, decides.

* `--name` and `-n` are options; letters may be joined, as in `-kv`.
* The value of an option is the next argument, or stands behind `=` or, after a letter, right behind
  it. An argument that looks like an option is no value.
* `-` is a path, as is each argument after `--`.
* No option may be given twice.
-/

namespace SqlFormatter.CommandLine

/-- Why a command line does not lead to a batch. -/
inductive Stop where
  /-- It is not understood. -/
  | misuse
  /-- It asks for help. -/
  | help
  /-- It asks for the version. -/
  | version
  deriving DecidableEq, Repr

/-- What has been given on a command line. -/
structure Given where
  /-- The options without a value. -/
  switches : List Switch := []
  /-- The path of the output. -/
  output : Option String := none
  /-- The number of blanks to indent by. -/
  indent : Option Nat := none
  /-- The milliseconds allowed for a source. -/
  timeLimit : Option Nat := none
  /-- The paths of the sources. -/
  files : List String := []
  deriving DecidableEq, Repr

/-- The number in a value: decimal digits, perhaps after a plus, for a word of 64 bits. -/
def numberOf? (value : String) : Option Nat :=
  let digits :=
    match value.toList with
    | '+' :: cs => cs
    | cs => cs
  if digits = [] ∨ digits.any fun c => !c.isDigit then none
  else
    let n := digits.foldl (fun n c => 10 * n + (c.toNat - '0'.toNat)) 0
    if n ≤ maxPos then some n else none

namespace Given

/-- Adds the option. -/
def switch (g : Given) (s : Switch) : Except Stop Given :=
  match s with
  | .help => .error .help
  | .version => .error .version
  | s =>
    if g.switches.contains s then .error .misuse
    else .ok { g with switches := s :: g.switches }

/-- Gives the setting the value. -/
def setting (g : Given) (s : Setting) (value : String) : Except Stop Given :=
  match s with
  | .output =>
    if g.output.isSome ∨ value = "" then .error .misuse else .ok { g with output := some value }
  | .indent =>
    match g.indent, numberOf? value with
    | none, some n => .ok { g with indent := some n }
    | _, _ => .error .misuse
  | .timeLimit =>
    match g.timeLimit, numberOf? value with
    | none, some n => .ok { g with timeLimit := some n }
    | _, _ => .error .misuse

/-- Adds a path. -/
def file (g : Given) (path : String) : Except Stop Given :=
  if path = "" then .error .misuse else .ok { g with files := g.files ++ [path] }

end Given

/-- An argument, taken for itself. -/
inductive Argument where
  /-- The mark before arguments that are all paths. -/
  | endOfOptions
  /-- A long name, and what stands behind `=` if there is one. -/
  | long (name : String) (value : Option String)
  /-- Letters, the last of which may have a value behind them. -/
  | letters (letters : List Char)
  /-- A path, or the value of the option before it. -/
  | plain (text : String)
  deriving DecidableEq, Repr

/-- What the argument looks like. -/
def Argument.ofText (text : String) : Argument :=
  match text.toList with
  | ['-', '-'] => .endOfOptions
  | '-' :: '-' :: cs =>
    match cs.dropWhile (· != '=') with
    | _ :: value => .long (String.ofList (cs.takeWhile (· != '='))) (some (String.ofList value))
    | [] => .long (String.ofList cs) none
  | '-' :: c :: cs => .letters (c :: cs)
  | _ => .plain text

/-- Takes in joined letters. If the last one needs the next argument for its value, gives the
setting, too. -/
def readLetters (g : Given) : List Char → Except Stop (Given × Option Setting)
  | [] => .ok (g, none)
  | c :: cs =>
    match Opt.ofLetter? c, cs with
    | none, _ => .error .misuse
    | some (.switch s), _ => do readLetters (← g.switch s) cs
    | some (.setting s), [] => .ok (g, some s)
    | some (.setting s), '=' :: value | some (.setting s), value => do
      return (← g.setting s (String.ofList value), none)

/-- Takes in an argument. If it is an option that needs the next argument for its value, gives the
setting, too. -/
def readArgument (g : Given) : Argument → Except Stop (Given × Option Setting)
  | .endOfOptions => .ok (g, none)
  | .long name value =>
    match Opt.ofName? name, value with
    | none, _ => .error .misuse
    | some (.switch s), none => do return (← g.switch s, none)
    | some (.switch _), some _ => .error .misuse
    | some (.setting s), none => .ok (g, some s)
    | some (.setting s), some value => do return (← g.setting s value, none)
  | .letters cs => readLetters g cs
  | .plain path => do return (← g.file path, none)

/-- Takes in the arguments, of which the first is the value of `pending` if there is one. -/
def readArguments (g : Given) (pending : Option Setting) : List String → Except Stop Given
  | [] => if pending.isSome then .error .misuse else .ok g
  | arg :: args =>
    match pending, Argument.ofText arg with
    | some s, .plain value => do readArguments (← g.setting s value) none args
    | some _, _ => .error .misuse
    | none, .endOfOptions => args.foldlM Given.file g
    | none, a => do
      let (g, pending) ← readArgument g a
      readArguments g pending args

/-- Takes the setting from the environment, unless it has been given. -/
def readVariable (env : String → Option String) (s : Setting) (isGiven : Bool) (g : Given) :
    Except Stop Given :=
  match s.variable?.bind env with
  | none => .ok g
  | some value => if isGiven then .ok g else g.setting s value

/-- What a command line asks for. -/
structure Request where
  /-- The batch to run. -/
  options : Batch.Options
  /-- Whether the log has all details. -/
  verbose : Bool
  deriving DecidableEq, Repr

/-- What is asked for by what has been given. -/
def Given.request (g : Given) : Request where
  options := {
    files := g.files
    output := g.output
    style := {
      indentWidth := g.indent.getD 4
      semicolon := !g.switches.contains .noSemicolon
      capitals := !g.switches.contains .lowercase }
    dumpTree := g.switches.contains .dumpTree
    keepGoing := g.switches.contains .keepGoing
    timeLimit := g.timeLimit }
  verbose := g.switches.contains .verbose

/-- What the arguments ask for. -/
def request (env : String → Option String) (args : List String) : Except Stop Request := do
  let g ← readArguments {} none args
  let g ← readVariable env .indent g.indent.isSome g
  let g ← readVariable env .timeLimit g.timeLimit.isSome g
  if g.files.isEmpty then .error .misuse
  return g.request

end SqlFormatter.CommandLine
