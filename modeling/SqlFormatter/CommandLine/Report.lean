import SqlFormatter.Batch.Basic

/-!
# SqlFormatter.CommandLine.Report

What the command line says when it cannot do what it is asked for, and in answer to the options that
ask for a text.
-/

namespace SqlFormatter.CommandLine

/-- The text that the option for the version asks for. -/
def versionText : String := "sqlfmt 0.1.0\n"

/-- How to call the program. -/
def usageLine : String := "Usage: sqlfmt [OPTIONS] <FILES>...\n"

/-- The text for a command line that is not understood. -/
def misuseText : String :=
  "error: invalid arguments\n\n" ++ usageLine ++ "\nFor more information, try '--help'.\n"

/-- The text that the option for help asks for. -/
def helpText : String :=
  "Formats SQL SELECT statements\n\n" ++ usageLine ++ "\n" ++
  "Arguments:\n" ++
  "  <FILES>...  Input files; `-` reads standard input\n\n" ++
  "Options:\n" ++
  "  -o, --output <OUTPUT>          Output file (standard output if not specified)\n" ++
  "      --indent <INDENT>          Spaces per indentation level " ++
  "[env: SQLFMT_INDENT=] [default: 4]\n" ++
  "      --no-semicolon             Do not end statements with `;`\n" ++
  "      --lowercase                Print keywords in lowercase\n" ++
  "      --dump-ast                 Write the syntax tree as JSON instead of formatted SQL\n" ++
  "  -k, --keep-going               Keep formatting the remaining files after an error\n" ++
  "      --timeout-ms <TIMEOUT_MS>  Give up lexing a file after this many milliseconds " ++
  "[env: SQLFMT_TIMEOUT_MS=]\n" ++
  "  -v, --verbose                  Enable verbose output\n" ++
  "  -h, --help                     Print help\n" ++
  "  -V, --version                  Print version\n"

/-- The text with `first` before its first line and `later` before each other line. -/
def indentLines (first later text : String) : String :=
  first ++ String.join (text.toList.map fun c => if c = '\n' then "\n" ++ later else c.toString)

/-- The number, with blanks before it so that it takes five columns. -/
def numberColumn (n : Nat) : String :=
  let digits := toString n
  String.ofList (List.replicate (5 - digits.length) ' ') ++ digits

/-- The list of causes: one cause stands alone, several are numbered from 0. -/
def causesText : List String → String
  | [] => ""
  | [cause] => "\n\nCaused by:\n" ++ indentLines "    " "    " cause
  | causes =>
    "\n\nCaused by:" ++ String.join (causes.zipIdx.map fun (cause, n) =>
      "\n" ++ indentLines (numberColumn n ++ ": ") "       " cause)

/-- The report of an error, with what led to it. -/
def errorText (message : String) (causes : List String) : String :=
  "Error: " ++ message ++ causesText causes ++ "\n"

/-- The report of a batch that ended with an error. -/
def batchErrorText (error : Batch.Error) : String := errorText error.message error.causes

/-- The report of a batch that left out sources. -/
def failedText (summary : Batch.Summary) : String :=
  errorText s!"{summary.failed} of {summary.files} files could not be formatted" []

end SqlFormatter.CommandLine
