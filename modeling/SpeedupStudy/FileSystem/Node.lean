/-
# Directory trees

A tree holds files, symbolic links and directories. A place in a tree is the list of names that
lead to it from the top. Links are kept as they are written and lead nowhere by themselves.
-/

import SpeedupStudy.FileSystem.Access

namespace SpeedupStudy

/-- A file, a symbolic link or a directory with all that lies below it. -/
inductive Node where
  | file (contents : Bytes)
  | link (target : Path)
  | directory (entries : List (Bytes × Node))
deriving Repr, Inhabited

/-- Put an entry into a directory, in place of the entry of that name. -/
def setEntry (name : Bytes) (node : Node) : List (Bytes × Node) → List (Bytes × Node)
  | [] => [(name, node)]
  | (key, old) :: rest =>
    if key = name then (key, node) :: rest else (key, old) :: setEntry name node rest

namespace Node

/-- Whether a node is a directory. -/
def isDirectory : Node → Bool
  | directory _ => true
  | _ => false

/-- The entry of a directory with a name. -/
def child? (name : Bytes) : Node → Option Node
  | directory entries => entries.lookup name
  | _ => none

/-- The node at a place. -/
def at? : List Bytes → Node → Option Node
  | [], node => some node
  | name :: rest, node => (node.child? name).bind (at? rest)

/-- The tree with a node put at a place whose directory exists; elsewhere it is as before. -/
def put : Node → List Bytes → Node → Node
  | _, [], new => new
  | directory entries, [name], new => directory (setEntry name new entries)
  | directory entries, name :: rest, new =>
    match entries.lookup name with
    | some old => directory (setEntry name (put old rest new) entries)
    | none => directory entries
  | node, _ :: _, _ => node

/-- The tree without the node at a place. -/
def remove : List Bytes → Node → Node
  | [], node => node
  | [name], directory entries => directory (entries.filter (·.1 != name))
  | name :: rest, directory entries =>
    match entries.lookup name with
    | some old => directory (setEntry name (remove rest old) entries)
    | none => directory entries
  | _ :: _, node => node

mutual

/-- The shape of a node. A link is no directory, wherever it leads. -/
def listing : Node → Listing
  | file _ => .other
  | link _ => .other
  | directory entries => .directory (listings entries)

/-- The shapes of the entries of a directory. -/
def listings : List (Bytes × Node) → List (Bytes × Listing)
  | [] => []
  | (name, node) :: rest => (name, node.listing) :: listings rest

end

end Node

end SpeedupStudy
