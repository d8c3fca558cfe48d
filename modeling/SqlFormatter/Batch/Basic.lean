import SqlFormatter.Layout.Style
import SqlFormatter.Load

/-!
# SqlFormatter.Batch.Basic

A batch: several sources, each formatted on its own, whose results go one after the other into one
output. Here are its options, what can go wrong, and its summary.
-/

namespace SqlFormatter.Batch

/-- What to format, and how. -/
structure Options where
  /-- The paths of the sources. -/
  files : List String := []
  /-- The path of the output; the standard output if there is none. -/
  output : Option String := none
  /-- The layout. -/
  style : Style := {}
  /-- Whether to write the syntax trees in place of the formatted statements. -/
  dumpTree : Bool := false
  /-- Whether to go on after a source that cannot be formatted. -/
  keepGoing : Bool := false
  /-- The milliseconds allowed for cutting a source into tokens. -/
  timeLimit : Option Nat := none
  deriving DecidableEq, Repr

/-- Whether no time at all is allowed. Any other limit is taken to be long enough. -/
def Options.expired (options : Options) : Bool := options.timeLimit == some 0

/-- Whether the path stands for the standard input: it is `-`, perhaps with slashes behind it. -/
def isStandardInput (path : String) : Bool :=
  let names := splitAtSlashes path.toList
  names.first == ['-'] && names.others.all fun name => name == [] || name == ['.']

/-- The name that the source at the path is registered with. -/
def sourceName (path : String) : String := if isStandardInput path then "<stdin>" else path

/-- What can go wrong in a batch. -/
inductive Error where
  /-- A source cannot be read, or the output cannot be written. -/
  | io (path : String) (fault : IoFault)
  /-- A source gives no statement. The location is where, or the path alone. -/
  | refused (path location : String) (error : LoadError)
  /-- There are too few positions for the source. -/
  | broken (violation : Violation)
  deriving DecidableEq, Repr

namespace Error

/-- The text of the error. -/
def message : Error → String
  | io path fault => s!"IO error on '{path}': {fault.message}"
  | refused _ location error => s!"{location}: {error.message}"
  | broken violation => s!"worker failed: {violation.message}"

/-- The texts of the errors that led to this one, the last cause last. -/
def causes : Error → List String
  | io _ fault => [fault.message]
  | refused _ _ (.refused (.lexical e)) => [(ParseError.lexical e).message, e.message]
  | refused _ _ error => [error.message]
  | broken _ => []

end Error

/-- How a batch went. -/
structure Summary where
  /-- The number of sources. -/
  files : Nat := 0
  /-- The number of those that were formatted. -/
  formatted : Nat := 0
  /-- The number of those that were left out because of an error. -/
  failed : Nat := 0
  deriving DecidableEq, Repr

end SqlFormatter.Batch
