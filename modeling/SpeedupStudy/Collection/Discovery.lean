/-
# Finding logs

The logs of a study are the files below its root whose names have the log extension. Directories
are walked whatever they are called, and a symbolic link is an entry of its own name that is not
followed, so the walk is bounded by the tree.
-/

import SpeedupStudy.Failure
import SpeedupStudy.Run.Name
import SpeedupStudy.Sort

namespace SpeedupStudy

/-- Whether a name is something, a dot and the log extension. -/
def isLogName (name : Bytes) : Bool :=
  let ending := Utf8.encode ("." ++ logExtension)
  ending.isSuffixOf name && ending.length < name.length

/-- The logs among the entries of a directory and below them. -/
def logsBelow (directory : Path) : List (Bytes × Listing) → List Path
  | [] => []
  | (name, .other) :: rest =>
    if isLogName name then directory.join name :: logsBelow directory rest
    else logsBelow directory rest
  | (name, .directory entries) :: rest =>
    logsBelow (directory.join name) entries ++ logsBelow directory rest
termination_by entries => sizeOf entries
decreasing_by
  all_goals
    simp only [List.cons.sizeOf_spec, Prod.mk.sizeOf_spec, Listing.directory.sizeOf_spec]
    omega

/-- The logs below a root in the order of paths. -/
def discover {m : Type → Type} [Monad m] [Files m] (root : Path) : Attempt m (List Path) := do
  match ← Attempt.files (Files.listing root) with
  | some (.directory entries) => return sortBy Path.compare (logsBelow root entries)
  | _ => throw (.input (.notADirectory root))

end SpeedupStudy
