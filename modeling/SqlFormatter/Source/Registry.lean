import SqlFormatter.Source.File

/-!
# SqlFormatter.Source.Registry

The registry of source files: it hands out the position space, so that a position alone tells the
file that it belongs to. Between two files at least one position stays free.

The registry remembers where the next file may start. To register a file is to read and change the
registry step by step (`Registry.add`). That may break off where the caller has broken a rule, and
what has been changed by then stays changed.
-/

namespace SqlFormatter

/-- The registered files, in the order of registration. -/
structure Registry where
  /-- The files. -/
  files : List File := []
  /-- The first position that the next file may start at. -/
  nextBase : Nat := 1
  deriving DecidableEq, Repr

namespace Registry

/-- The registry of no file. -/
def empty : Registry := {}

/-- The number of files. -/
def size (r : Registry) : Nat := r.files.length

/-- Registers a file of `size` bytes at `base?`, by default at the first position that is free. -/
def add (name : String) (base? : Option Nat) (size : Nat) : EStateM Violation Registry File := do
  let r ← get
  let base := base?.getD r.nextBase
  if base < r.nextBase then throw (.baseTaken base r.nextBase)
  let next := base + size + 1
  if maxPos < next then throw (.positionsExhausted size base)
  let file : File := { id := r.files.length, name, base, size }
  modify fun r => { r with nextBase := next }
  modify fun r => { r with files := r.files ++ [file] }
  return file

/-- The file and the registry after it was registered, or which rule the caller has broken. -/
def register (r : Registry) (name : String) (base? : Option Nat) (size : Nat) :
    Except Violation (File × Registry) :=
  match (add name base? size).run r with
  | .ok file r => .ok (file, r)
  | .error violation _ => .error violation

/-- The file that was registered after `id` others. -/
def file? (r : Registry) (id : Nat) : Option File := r.files[id]?

/-- Puts `f` in the place of the file that was registered under its number. -/
def update (r : Registry) (f : File) : Registry := { r with files := r.files.set f.id f }

/-- The file that owns position `p`. -/
def fileAt? (r : Registry) (p : Nat) : Option File := r.files.find? (·.Owns p)

/-- The file, line and column of position `p`, by the lines known so far. -/
def locate? (r : Registry) (p : Nat) : Option Location :=
  (r.fileAt? p).map fun f => f.locateOffset (p - f.base)

/-- A summary of the registry on one line, for a log. -/
def summary (r : Registry) : String :=
  s!"FileSet \x7b base: {r.nextBase}, files: {r.size} \x7d"

end Registry

end SqlFormatter
