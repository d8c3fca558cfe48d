import SqlFormatter.NonemptyList

/-!
# SqlFormatter.FileSystem

What a program has to do with files. How an operating system finds, reads and writes them is not for
a program to say, so that is a parameter (`FileSystem`). It is inferred, and what is built on it
holds whatever the files are.
-/

namespace SqlFormatter

/-- Why a file cannot be read or written. -/
structure IoFault where
  /-- What the operating system says. -/
  message : String
  deriving DecidableEq, Repr

/-! What Linux says about the most common faults. -/

namespace IoFault

/-- There is nothing of this name. -/
def notFound : IoFault := ⟨"No such file or directory (os error 2)"⟩

/-- A file stands where a directory is needed. -/
def notDirectory : IoFault := ⟨"Not a directory (os error 20)"⟩

/-- A directory stands where a file is needed. -/
def isDirectory : IoFault := ⟨"Is a directory (os error 21)"⟩

/-- The path or one of its names is too long. -/
def nameTooLong : IoFault := ⟨"File name too long (os error 36)"⟩

/-- The path has a null character in it. -/
def nullCharacter : IoFault := ⟨"file name contained an unexpected NUL byte"⟩

end IoFault

/-- Reading and writing, where a value of `σ` is all that there is in files at some time. -/
class FileSystem (σ : Type) where
  /-- The bytes of the file at the path, or why it cannot be read. -/
  read : σ → String → Except IoFault (List UInt8)
  /-- Writes the bytes to the file at the path, in place of what it held. What there is in files
  after that may be different even if it fails. -/
  write : σ → String → List UInt8 → Except IoFault Unit × σ

/-- The pieces of a path between the slashes, at least one. -/
def splitAtSlashes : List Char → NonemptyList (List Char)
  | [] => ⟨[], []⟩
  | c :: cs =>
    let names := splitAtSlashes cs
    if c = '/' then ⟨[], names.toList⟩ else ⟨c :: names.first, names.others⟩

end SqlFormatter
