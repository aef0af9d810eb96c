/-
# Disks

A disk is a directory tree with a working directory at its top, held as a value. Its operations
are those of `Files`, so every command can run on a disk and what it does to the files is the
difference of two values. An operation that fails leaves the disk as it was, except that
`createDirectories` keeps the directories it made.
-/

import SpeedupStudy.FileSystem.Walk

namespace SpeedupStudy

/-- A working directory with all that lies below it. -/
structure Disk where
  top : Node := .directory []

instance : Inhabited Disk :=
  ⟨{}⟩

namespace Disk

/-- The contents of a file. -/
def read (d : Disk) (p : Path) : Except IoError Bytes :=
  match d.top.resolve false p with
  | .error e => .error e
  | .ok (.present _ (.file contents)) => .ok contents
  | .ok (.present _ _) => .error .isADirectory
  | .ok (.absent _ _) => .error .notFound

/-- Whether a path leads to a directory. -/
def isDirectory (d : Disk) (p : Path) : Bool :=
  match d.top.resolve false p with
  | .ok (.present _ node) => node.isDirectory
  | _ => false

/-- The disk with a file that has these contents. -/
def write (d : Disk) (p : Path) (contents : Bytes) : Except IoError Disk :=
  match d.top.resolve true p with
  | .error e => .error e
  | .ok (.present place (.file _)) => .ok ⟨d.top.put place (.file contents)⟩
  | .ok (.present _ _) => .error .isADirectory
  | .ok (.absent directory name) => .ok ⟨d.top.put (directory ++ [name]) (.file contents)⟩

/-- The place of the last name of a path, and what is there. A link there is not followed. Where a
path ends in dots or at the root it leads to a directory without a last name, and the answer is
the error `unnamed`. -/
def lastEntry (d : Disk) (p : Path) (unnamed : IoError) :
    Except IoError (List Bytes × Option Node) :=
  match p.problem?, p.lastName? with
  | some e, _ => .error e
  | none, none =>
    match d.top.directoryAt p.steps with
    | .error e => .error e
    | .ok _ => .error unnamed
  | none, some (above, name) =>
    match d.top.directoryAt above with
    | .error e => .error e
    | .ok (place, entries) =>
      if Path.maxNameLength < name.length then .error .nameTooLong
      else .ok (place ++ [name], entries.lookup name)

/-- The disk with a new entry at a place where nothing is. Only the name of a directory may have
slashes after it. -/
def addEntry (d : Disk) (p : Path) (node : Node) : Except IoError Disk :=
  match d.lastEntry p .alreadyExists with
  | .error e => .error e
  | .ok (_, some _) => .error .alreadyExists
  | .ok (place, none) =>
    if p.endsInSlash && ! node.isDirectory then .error .notFound
    else .ok ⟨d.top.put place node⟩

/-- Make one directory. -/
def createDirectory (d : Disk) (p : Path) : Except IoError Disk :=
  d.addEntry p (.directory [])

/-- Make a directory, whose components are given with the last one first, and all missing
directories above it. The disk is returned as it is after the last attempt. -/
def createAll (p : Path) : List Component → Disk → Except IoError Unit × Disk
  | [], d => (.ok (), d)
  | _ :: above, d =>
    let settle (d : Disk) (e : IoError) : Except IoError Unit × Disk :=
      (if d.isDirectory p then .ok () else .error e, d)
    match d.createDirectory p with
    | .ok d => (.ok (), d)
    | .error .notFound =>
      match createAll (Path.ofComponents above.reverse) above d with
      | (.error e, d) => (.error e, d)
      | (.ok (), d) =>
        match d.createDirectory p with
        | .ok d => (.ok (), d)
        | .error e => settle d e
    | .error e => settle d e

/-- Make a directory and all missing directories above it. -/
def createDirectories (d : Disk) (p : Path) : Except IoError Unit × Disk :=
  createAll p p.components.reverse d

/-- Make a symbolic link that holds a target. The target need not lead anywhere, but it must be a
path that a walk accepts. -/
def createLink (d : Disk) (p target : Path) : Except IoError Disk :=
  if p.bytes.contains 0 then .error .nulInName
  else
    match target.problem? with
    | some e => .error e
    | none => d.addEntry p (.link target)

/-- Remove a file or a link. No slash may follow the name of either. -/
def remove (d : Disk) (p : Path) : Except IoError Disk :=
  match d.lastEntry p .isADirectory with
  | .error e => .error e
  | .ok (_, none) => .error .notFound
  | .ok (_, some (.directory _)) => .error .isADirectory
  | .ok (place, some _) =>
    if p.endsInSlash then .error .notADirectory else .ok ⟨d.top.remove place⟩

/-- Whether the directories below a directory all have paths that a walk accepts. Each of them is
opened by the path of the first with the names below it. -/
def opensAll (directory : Path) : List (Bytes × Listing) → Bool
  | [] => true
  | (_, .other) :: rest => opensAll directory rest
  | (name, .directory entries) :: rest =>
    (directory.join name).problem?.isNone && opensAll (directory.join name) entries &&
      opensAll directory rest

/-- What lies below a directory, or nothing where the path leads to no directory. -/
def listing (d : Disk) (p : Path) : Except IoError (Option Listing) :=
  match d.top.resolve false p with
  | .ok (.present _ (.directory entries)) =>
    let below := Node.listings entries
    if opensAll p below then .ok (some (.directory below)) else .error .nameTooLong
  | _ => .ok none

/-- Keep the new disk of an operation that may fail. -/
def keep (d : Disk) : Except IoError Disk → Except IoError Unit × Disk
  | .ok new => (.ok (), new)
  | .error e => (.error e, d)

end Disk

/-- Programs whose only state is a disk. -/
abbrev DiskM := StateM Disk

instance : Files DiskM where
  read p := fun d => (d.read p, d)
  write p contents := fun d => d.keep (d.write p contents)
  createDirectories p := fun d => d.createDirectories p
  listing p := fun d => (d.listing p, d)

end SpeedupStudy
