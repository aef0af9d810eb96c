/-
# The program

The commands run on the file system of the machine, its clock and its terminal. Everything they
decide is decided in the modules before this one.
-/

import SpeedupStudy.CommandLine.Commands
import Std.Time

namespace SpeedupStudy

/-- The code and the wording that the machine gives an error, where it has them. -/
def codeOf? : IO.Error → Option (UInt32 × String)
  | .alreadyExists _ code details | .otherError code details | .resourceBusy code details
  | .resourceVanished code details | .unsupportedOperation code details
  | .hardwareFault code details | .unsatisfiedConstraints code details
  | .illegalOperation code details | .protocolError code details | .timeExpired code details
  | .interrupted _ code details | .noFileOrDirectory _ code details
  | .invalidArgument _ code details | .permissionDenied _ code details
  | .resourceExhausted _ code details | .inappropriateType _ code details
  | .noSuchThing _ code details => some (code, details)
  | .unexpectedEof | .userError _ => none

/-- The number of an error. Some operations give its opposite as a code. -/
def numberOf (code : UInt32) : Nat :=
  (min code (-code)).toNat

/-- The cause of an error of the machine. -/
def causeOf (e : IO.Error) : IoError :=
  match (codeOf? e).map fun (code, details) => (numberOf code, details) with
  | some (2, _) => .notFound
  | some (17, _) => .alreadyExists
  | some (20, _) => .notADirectory
  | some (21, _) => .isADirectory
  | some (36, _) => .nameTooLong
  | some (40, _) => .tooManyLinks
  | some (number, details) => .other (details ++ " (os error " ++ toString number ++ ")")
  | none => .other (toString e)

/-- Run an action of the machine and keep its error as a value. -/
def caught {α : Type} (action : IO α) : IO (Except IoError α) := do
  match ← action.toBaseIO with
  | .ok a => return .ok a
  | .error e => return .error (causeOf e)

/-- What lies below a directory. Links are not followed. -/
partial def entriesBelow (directory : IO.FS.DirEntry) : IO (List (Bytes × Listing)) := do
  let entries ← directory.path.readDir
  entries.toList.mapM fun entry => do
    let isDirectory := (← entry.path.symlinkMetadata).type == .dir
    let shape ← if isDirectory then Listing.directory <$> entriesBelow entry else pure .other
    return (Utf8.encode entry.fileName, shape)

/-- What lies below a root, or nothing where the path leads to no directory. -/
def listingOf (root : Path) : IO (Option Listing) := do
  let here : IO.FS.DirEntry := ⟨root.display, "."⟩
  if ! root.bytes.isEmpty && (← here.path.isDir) then
    return some (.directory (← entriesBelow here))
  else return none

instance : Files IO where
  read p := caught do
    return (← IO.FS.readBinFile p.display).data.toList
  write p contents := caught (IO.FS.writeBinFile p.display ⟨contents.toArray⟩)
  createDirectories p := caught (IO.FS.createDirAll p.display)
  listing p := caught (listingOf p)

instance : Host IO where
  milliseconds := IO.monoMsNow
  timestamp := do
    let moment ← Std.Time.Timestamp.now
    let civil := Std.Time.PlainDateTime.ofWallTime (.ofDuration moment.toDurationSinceUnixEpoch)
    return civil.toLeanDateTimeString ++ "+00:00"
  defaultThreads := return 1

instance : Console IO where
  out := IO.println
  err := IO.eprintln

end SpeedupStudy

/-- Run the program with the arguments of the command line. -/
def main (args : List String) : IO UInt32 := do
  return (← SpeedupStudy.runProgram args).toUInt32
