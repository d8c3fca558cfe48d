import SqlFormatter.FileSystem
import SqlFormatter.Text.Utf8

/-!
# SqlFormatter.Disk

A file system in memory, to try a program on: files and directories below a root, one of which is
the working directory. Reading and writing fail in the ways in which Linux lets them fail.
-/

namespace SqlFormatter

/-- A step from a directory. -/
inductive PathStep where
  /-- To the directory itself. -/
  | stay
  /-- To the directory that it is in. -/
  | up
  /-- To what has this name. -/
  | down (name : String)
  deriving DecidableEq, Repr

namespace PathStep

/-- The step that a name in a path stands for. -/
def ofName (name : List Char) : PathStep :=
  if name = [] ∨ name = ['.'] then stay
  else if name = ['.', '.'] then up
  else down (String.ofList name)

/-- Where the step leads from the directory that the names lead to. The root is in itself. -/
def target (names : List String) : PathStep → List String
  | stay => names
  | up => names.dropLast
  | down name => names ++ [name]

end PathStep

/-- The files and directories, by the names that lead to them from the root. -/
structure Disk where
  /-- The files. -/
  files : List (List String × List UInt8) := []
  /-- The directories, besides those that something is in. -/
  directories : List (List String) := []
  /-- The directory that a path starts from if no slash is at its front. -/
  workingDirectory : List String := ["work"]
  deriving DecidableEq, Repr

namespace Disk

/-- The bytes of the file that the names lead to. -/
def fileAt? (d : Disk) (names : List String) : Option (List UInt8) := d.files.lookup names

/-- Whether the names lead to a directory: that is also what a file is in. -/
def isDirectory (d : Disk) (names : List String) : Bool :=
  names.isPrefixOf d.workingDirectory || d.directories.any (names.isPrefixOf ·) ||
    d.files.any fun f => names.isPrefixOf f.1 && names != f.1

/-- The greatest number of bytes in a name. -/
def maxNameLength : Nat := 255

/-- The greatest number of bytes in a path. -/
def maxPathLength : Nat := 4095

/-- Goes one step from a place, which must be a directory, to what is there. -/
def step (d : Disk) (place : List String) (s : PathStep) : Except IoFault (List String) :=
  if d.isDirectory place then
    match s with
    | .stay | .up => .ok (s.target place)
    | .down name =>
      if maxNameLength < byteLength name.toList then .error .nameTooLong
      else
        let names := s.target place
        if (d.fileAt? names).isSome || d.isDirectory names then .ok names else .error .notFound
  else .error .notDirectory

/-- Where a path starts: a slash at its front stands for the root. -/
def start (d : Disk) (path : List Char) : List String :=
  if path.head? = some '/' then [] else d.workingDirectory

/-- Where the names of a path lead. -/
def walk (d : Disk) (start : List String) (names : List (List Char)) :
    Except IoFault (List String) :=
  names.foldlM (fun place name => d.step place (.ofName name)) start

/-- Checks what must hold of every path. -/
def checkPath (path : List Char) : Except IoFault Unit :=
  if path.contains '\x00' then .error .nullCharacter
  else if path = [] then .error .notFound
  else if maxPathLength < byteLength path then .error .nameTooLong
  else .ok ()

/-- The bytes of the file at `path`. -/
def read (d : Disk) (path : String) : Except IoFault (List UInt8) := do
  let cs := path.toList
  checkPath cs
  match d.fileAt? (← d.walk (d.start cs) (splitAtSlashes cs).toList) with
  | some bytes => .ok bytes
  | none => .error .isDirectory

/-- The disk with these bytes in the file that the names lead to. -/
def put (d : Disk) (names : List String) (bytes : List UInt8) : Disk :=
  if (d.fileAt? names).isSome then
    { d with files := d.files.map fun f => if f.1 = names then (names, bytes) else f }
  else { d with files := d.files ++ [(names, bytes)] }

/-- Writes the bytes to the file at `path`, which is made if there is none. The directory that it is
in must exist. -/
def write (d : Disk) (path : String) (bytes : List UInt8) : Except IoFault Disk := do
  let cs := path.toList
  checkPath cs
  let names := (splitAtSlashes cs).toList.reverse
  let slashAtEnd := names.head? = some []
  match names.dropWhile (· = []) with
  | [] => .error .isDirectory
  | name :: others =>
    let place ← d.walk (d.start cs) others.reverse
    if !d.isDirectory place then .error .notDirectory
    match PathStep.ofName name with
    | .stay | .up => .error .isDirectory
    | .down name =>
      if slashAtEnd then .error .isDirectory
      else if maxNameLength < byteLength name.toList then .error .nameTooLong
      else
        let names := place ++ [name]
        if d.isDirectory names then .error .isDirectory else .ok (d.put names bytes)

instance : FileSystem Disk where
  read := read
  write d path bytes :=
    match d.write path bytes with
    | .ok d => (.ok (), d)
    | .error fault => (.error fault, d)

/-- The places along a path, from where it starts to where it leads. -/
def along (d : Disk) (path : List Char) : List (List String) :=
  (splitAtSlashes path).toList.scanl (fun place name => (PathStep.ofName name).target place)
    (d.start path)

/-- The disk with the directory at `path`, and with every directory on the way to it. -/
def addDirectory (d : Disk) (path : String) : Disk :=
  { d with directories := d.directories ++ d.along path.toList }

/-- The disk with a file at `path`, in place of what the file held before, and with every directory
on the way to it. -/
def addFile (d : Disk) (path : String) (bytes : List UInt8) : Disk :=
  let places := d.along path.toList
  { d with directories := d.directories ++ places.dropLast }.put (places.getLast?.getD []) bytes

end Disk

end SqlFormatter
