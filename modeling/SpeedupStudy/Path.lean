/-
# Paths

A path is kept as it was written, but it is compared by its components: repeated slashes, a
slash at the end and single dots after the first component make no difference. Names below a
path are ordered byte by byte, one component after another, so `a/z` precedes `a b/a`.
-/

import SpeedupStudy.Text.Pieces
import SpeedupStudy.Text.Utf8

namespace SpeedupStudy

/-- A path as written: names with slashes between them. -/
structure Path where
  bytes : Bytes
deriving DecidableEq, Repr, Inhabited

/-- A part of a path. -/
inductive Component where
  | root
  | here
  | parent
  | name (bytes : Bytes)
deriving DecidableEq, Repr

namespace Component

/-- The rank of a component as a string of bytes: the root first, then the dots, then names. -/
def rank : Component → Bytes
  | root => [0]
  | here => [1]
  | parent => [2]
  | name bytes => 3 :: bytes

theorem rank_injective {a b : Component} (h : a.rank = b.rank) : a = b := by
  cases a <;> cases b <;> simp_all [rank]

end Component

namespace Path

/-- The byte between two names of a path. -/
def slash : UInt8 := 0x2F

/-- The byte of a dot. -/
def dot : UInt8 := 0x2E

/-- The path with this text. -/
def ofString (s : String) : Path :=
  ⟨Utf8.encode s⟩

/-- The path as text, with U+FFFD for bytes that are no text. -/
def display (p : Path) : String :=
  String.ofList (Utf8.decodeLossy p.bytes)

/-- The component that a piece between two slashes stands for, if it stands for one. -/
def componentOf? (piece : Bytes) : Option Component :=
  if piece.isEmpty || piece == [dot] then none
  else if piece == [dot, dot] then some .parent
  else some (.name piece)

/-- The components that tell paths apart. A dot counts only at the start. -/
def components (p : Path) : List Component :=
  match Text.split slash p.bytes with
  | [] => []
  | first :: rest =>
    let start :=
      if first.isEmpty then if rest.isEmpty then [] else [.root]
      else if first == [dot] then [.here]
      else [first].filterMap componentOf?
    start ++ rest.filterMap componentOf?

/-- The name of the file or directory that a path leads to; none where it ends in the root or in
dots. -/
def fileName? (p : Path) : Option Bytes :=
  match p.components.getLast? with
  | some (.name bytes) => some bytes
  | _ => none

/-- A path with these components. -/
def ofComponents : List Component → Path
  | .root :: rest => ⟨slash :: text rest⟩
  | parts => ⟨text parts⟩
where
  /-- The components after the root with slashes between them. -/
  text (parts : List Component) : Bytes :=
    Text.join slash (parts.map fun
      | .root => []
      | .here => [dot]
      | .parent => [dot, dot]
      | .name bytes => bytes)

/-- The directory that holds what a path leads to; none for the root and the empty path. -/
def parent? (p : Path) : Option Path :=
  match p.components.getLast? with
  | none | some .root => none
  | some _ => some (ofComponents p.components.dropLast)

/-- The path of an entry of a directory. -/
def join (p : Path) (name : Bytes) : Path :=
  match p.bytes.getLast? with
  | none => ⟨name⟩
  | some last => ⟨p.bytes ++ (if last == slash then name else slash :: name)⟩

/-- Compare two paths, component by component. -/
def compare (a b : Path) : Ordering :=
  Ord.compare (a.components.map Component.rank) (b.components.map Component.rank)

end Path

end SpeedupStudy
