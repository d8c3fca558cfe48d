import SqlFormatter.FileSystem
import SqlFormatter.Grammar.Parser
import SqlFormatter.Source.Registry
import SqlFormatter.Text.Utf8

/-!
# SqlFormatter.Load

Statements from texts, bytes and files: the source is registered, so that positions in it can be
told from those in other sources, and then parsed. A source that is not UTF-8 is not registered.
-/

namespace SqlFormatter

/-- Why a source gives no statement. -/
inductive LoadError where
  /-- Its text is no statement. -/
  | refused (error : ParseError)
  /-- Its bytes are not UTF-8. They are those of the file `path`, if there is one. -/
  | notUtf8 (path : Option String) (fault : Utf8Fault)
  /-- The file cannot be read. -/
  | unreadable (path : String) (fault : IoFault)
  deriving DecidableEq, Repr

namespace LoadError

/-- The position concerned, nowhere if the text is not at fault. -/
def pos : LoadError → Nat
  | refused error => error.pos
  | notUtf8 .. | unreadable .. => nowhere

/-- Whether the text is at fault. -/
def isInText : LoadError → Bool
  | refused _ => true
  | notUtf8 .. | unreadable .. => false

/-- The text of the error. -/
def message : LoadError → String
  | refused error => error.message
  | notUtf8 none fault => s!"invalid input: source is not valid UTF-8: {fault.message}"
  | notUtf8 (some path) fault =>
    s!"invalid input: '{path}' is not valid UTF-8: {fault.message}"
  | unreadable path fault => s!"failed to read '{path}': {fault.message}"

end LoadError

namespace Registry

/-- Registers the text under the name, and gives the statement that it is, or why it is none. -/
def loadText (r : Registry) (name text : String) (expired : Bool := false) :
    Except Violation (Except LoadError Statement × Registry) := do
  let (file, r) ← r.register name none (byteLength text.toList)
  let (result, file) ← parseText file text expired
  return (result.mapError .refused, r.update file)

/-- Does the same for bytes, which are those of the file `path?` if there is one. -/
def loadBytes (r : Registry) (name : String) (bytes : List UInt8) (path? : Option String := none)
    (expired : Bool := false) : Except Violation (Except LoadError Statement × Registry) :=
  match decodeUtf8 bytes with
  | .error fault => .ok (.error (.notUtf8 path? fault), r)
  | .ok text => r.loadText name text expired

/-- Does the same for the file at `path`, with the path for its name. -/
def loadFile {σ : Type} [FileSystem σ] (r : Registry) (disk : σ) (path : String) :
    Except Violation (Except LoadError Statement × Registry) :=
  match FileSystem.read disk path with
  | .error fault => .ok (.error (.unreadable path fault), r)
  | .ok bytes => r.loadBytes path bytes path

end Registry

end SqlFormatter
