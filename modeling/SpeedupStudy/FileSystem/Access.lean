/-
# Access to files

The commands of the study read logs and write tables through four operations. Any monad that
offers them can run a command: a disk held as a value, about which theorems can be stated, or
the file system of the machine.
-/

import SpeedupStudy.Path

namespace SpeedupStudy

/-- Why an operation on files failed. -/
inductive IoError where
  | notFound
  | alreadyExists
  | notADirectory
  | isADirectory
  | nameTooLong
  | tooManyLinks
  | nulInName
  | notText
  | other (text : String)
deriving DecidableEq, Repr

/-- The wording of a file error. -/
def IoError.message : IoError → String
  | notFound => "No such file or directory (os error 2)"
  | alreadyExists => "File exists (os error 17)"
  | notADirectory => "Not a directory (os error 20)"
  | isADirectory => "Is a directory (os error 21)"
  | nameTooLong => "File name too long (os error 36)"
  | tooManyLinks => "Too many levels of symbolic links (os error 40)"
  | nulInName => "file name contained an unexpected NUL byte"
  | notText => "stream did not contain valid UTF-8"
  | other text => text

/-- The shape of what lies below a directory. Files and symbolic links are entries that lead no
further. -/
inductive Listing where
  | other
  | directory (entries : List (Bytes × Listing))
deriving Repr, Inhabited

/-- The operations on files that the commands use. -/
class Files (m : Type → Type) where
  /-- The contents of a file; symbolic links are followed. -/
  read : Path → m (Except IoError Bytes)
  /-- Make a file with these contents, or replace the contents that are there. -/
  write : Path → Bytes → m (Except IoError Unit)
  /-- Make a directory and all directories above it that are missing. -/
  createDirectories : Path → m (Except IoError Unit)
  /-- What lies below a directory, or nothing where the path leads to no directory. -/
  listing : Path → m (Except IoError (Option Listing))

/-- A program with a state of its own has the files of the program below it. -/
instance {σ : Type} {m : Type → Type} [Monad m] [Files m] : Files (StateT σ m) where
  read p := StateT.lift (Files.read p)
  write p contents := StateT.lift (Files.write p contents)
  createDirectories p := StateT.lift (Files.createDirectories p)
  listing p := StateT.lift (Files.listing p)

namespace Files

/-- Read a file that must be text. -/
def readText {m : Type → Type} [Monad m] [Files m] (path : Path) :
    m (Except IoError String) := do
  match ← read path with
  | .error e => return .error e
  | .ok bytes =>
    match Utf8.decode? bytes with
    | none => return .error .notText
    | some text => return .ok text

/-- Write a text to a file. -/
def writeText {m : Type → Type} [Files m] (path : Path) (text : String) :
    m (Except IoError Unit) :=
  write path (Utf8.encode text)

/-- Write a file, making the directories above it first. -/
def writeWithParents {m : Type → Type} [Monad m] [Files m] (path : Path) (contents : Bytes) :
    m (Except IoError Unit) := do
  match path.parent? with
  | none => write path contents
  | some above =>
    if above.bytes.isEmpty then write path contents
    else
      match ← createDirectories above with
      | .error e => return .error e
      | .ok () => write path contents

end Files

end SpeedupStudy
