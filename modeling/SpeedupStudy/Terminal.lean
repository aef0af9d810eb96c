/-
# Terminals

A command prints lines to its output and to its error output. A terminal held as a value keeps
both, so a command that runs on a disk and a terminal is a function of the disk.
-/

import SpeedupStudy.Host

namespace SpeedupStudy

/-- A place to print lines. -/
class Console (m : Type → Type) where
  /-- Print a line to the output. -/
  out : String → m Unit
  /-- Print a line to the error output. -/
  err : String → m Unit

/-- What was printed, the first line first. -/
structure Terminal where
  out : List String := []
  err : List String := []
deriving DecidableEq, Repr

instance {m : Type → Type} [Monad m] : Console (StateT Terminal m) where
  out line := modify fun t => { t with out := t.out ++ [line] }
  err line := modify fun t => { t with err := t.err ++ [line] }

/-- Programs whose only state is a disk and what they printed. -/
abbrev TerminalM := StateT Terminal DiskM

end SpeedupStudy
