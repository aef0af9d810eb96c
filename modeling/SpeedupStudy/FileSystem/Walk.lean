/-
# Following paths

A walk goes from the top of a tree along the components of a path. A symbolic link on the way is
replaced by its target; after forty of them the walk is given up. A walk may end at a place that
does not exist as long as its directory does, which is where a new file can be made. Where a file
is to be made, no slash may follow the last name, be it the last one of the path or of the target
of a link at its end. The top of the tree is its own parent, and the root of absolute paths too.
-/

import SpeedupStudy.FileSystem.Node

namespace SpeedupStudy

namespace Path

/-- Whether a path ends in a slash, which only a directory may follow. -/
def endsInSlash (p : Path) : Bool :=
  p.bytes.getLast? == some slash

/-- The step that a piece between two slashes stands for: none where the piece is empty, and the
same directory again where it is a dot. -/
def stepOf (piece : Bytes) : Option Component :=
  if piece.isEmpty then none else some ((componentOf? piece).getD .here)

/-- The steps of a walk. A slash without a name after it is a step as well, as it asks for a
directory. -/
def steps (p : Path) : List (Option Component) :=
  match Text.split slash p.bytes with
  | [] => []
  | first :: rest =>
    (if first.isEmpty then if rest.isEmpty then [] else [some .root] else [stepOf first]) ++
      rest.map stepOf

/-- The steps to the directory of the last name of a path, and that name. Slashes at the end make no
difference, but there is no last name where a path ends in dots or at the root. -/
def lastName? (p : Path) : Option (List (Option Component) × Bytes) :=
  match p.steps.reverse.dropWhile Option.isNone with
  | some (.name name) :: above => some (above.reverse, name)
  | _ => none

/-- The longest name that a directory can hold. -/
def maxNameLength : Nat := 255

/-- The length from which on no path is accepted. -/
def maxLength : Nat := 4096

/-- What rules out a path before any walk. -/
def problem? (p : Path) : Option IoError :=
  if p.bytes.contains 0 then some .nulInName
  else if p.bytes.isEmpty then some .notFound
  else if maxLength ≤ p.bytes.length then some .nameTooLong
  else none

end Path

/-- Where a walk ends: at a node, or at a name that is free in a directory. -/
inductive Place where
  | present (place : List Bytes) (node : Node)
  | absent (directory : List Bytes) (name : Bytes)

/-- The number of links that a walk follows. -/
def maxLinks : Nat := 40

namespace Node

/-- Whether the steps after a name are slashes, and some there are. -/
def endInSlash (steps : List (Option Component)) : Bool :=
  ! steps.isEmpty && steps.all Option.isNone

/-- Walk along some steps from a directory, to make a file at the end or for anything else. The
function `follow` walks on from a directory after a link was replaced by its target. -/
def walkVia (top : Node) (making : Bool)
    (follow : List Bytes → List (Option Component) → Except IoError Place) :
    List Bytes → List (Option Component) → Except IoError Place
  | here, [] =>
    match top.at? here with
    | some node => .ok (.present here node)
    | none => .error .notFound
  | here, none :: rest => walkVia top making follow here rest
  | _, some .root :: rest => walkVia top making follow [] rest
  | here, some .here :: rest => walkVia top making follow here rest
  | here, some .parent :: rest => walkVia top making follow here.dropLast rest
  | here, some (.name name) :: rest =>
    if making && endInSlash rest then .error .isADirectory
    else if Path.maxNameLength < name.length then .error .nameTooLong
    else
      let there := here ++ [name]
      match top.at? there with
      | none => if rest.isEmpty then .ok (.absent here name) else .error .notFound
      | some (.file contents) =>
        if rest.isEmpty then .ok (.present there (.file contents)) else .error .notADirectory
      | some (.directory _) => walkVia top making follow there rest
      | some (.link target) => follow here (target.steps ++ rest)

/-- Walk along some steps, following at most so many links. -/
def walk (top : Node) (making : Bool) :
    Nat → List Bytes → List (Option Component) → Except IoError Place
  | 0 => walkVia top making fun _ _ => .error .tooManyLinks
  | links + 1 => walkVia top making (walk top making links)

/-- The place that a path leads to, to make a file there or for anything else. -/
def resolve (top : Node) (making : Bool) (p : Path) : Except IoError Place :=
  match p.problem? with
  | some e => .error e
  | none => walk top making maxLinks [] p.steps

/-- The directory that some steps lead to. -/
def directoryAt (top : Node) (steps : List (Option Component)) :
    Except IoError (List Bytes × List (Bytes × Node)) :=
  match walk top false maxLinks [] steps with
  | .error e => .error e
  | .ok (.present place (.directory entries)) => .ok (place, entries)
  | .ok (.present _ _) => .error .notADirectory
  | .ok (.absent _ _) => .error .notFound

end Node

end SpeedupStudy
