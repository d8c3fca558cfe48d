/-!
# SqlFormatter.CommandLine.Option

The options of the command line and how they are spelled.
-/

namespace SqlFormatter.CommandLine

/-- The options without a value. -/
inductive Switch where
  | noSemicolon | lowercase | dumpTree | keepGoing | verbose
  /-- Asks for help, and for nothing else. -/
  | help
  /-- Asks for the version, and for nothing else. -/
  | version
  deriving DecidableEq, Repr

/-- The options with a value. -/
inductive Setting where
  | output | indent | timeLimit
  deriving DecidableEq, Repr

/-- An option. -/
inductive Opt where
  | switch (s : Switch)
  | setting (s : Setting)
  deriving DecidableEq, Repr

/-- The option of this long name. -/
def Opt.ofName? (name : String) : Option Opt :=
  match name with
  | "output" => some (.setting .output)
  | "indent" => some (.setting .indent)
  | "timeout-ms" => some (.setting .timeLimit)
  | "no-semicolon" => some (.switch .noSemicolon)
  | "lowercase" => some (.switch .lowercase)
  | "dump-ast" => some (.switch .dumpTree)
  | "keep-going" => some (.switch .keepGoing)
  | "verbose" => some (.switch .verbose)
  | "help" => some (.switch .help)
  | "version" => some (.switch .version)
  | _ => none

/-- The option of this letter. -/
def Opt.ofLetter? (letter : Char) : Option Opt :=
  match letter with
  | 'o' => some (.setting .output)
  | 'k' => some (.switch .keepGoing)
  | 'v' => some (.switch .verbose)
  | 'h' => some (.switch .help)
  | 'V' => some (.switch .version)
  | _ => none

/-- The environment variable that gives the setting where the command line does not. -/
def Setting.variable? : Setting → Option String
  | output => none
  | indent => some "SQLFMT_INDENT"
  | timeLimit => some "SQLFMT_TIMEOUT_MS"

end SqlFormatter.CommandLine
