/-
# Results of a pass

A pass turns logs into rows, one for each run, and keeps an account of every log that it left out:
those of the other scenario are counted, and the rest are listed with the cause. The summary counts
what became of all files.
-/

import SpeedupStudy.Catalog.Resolve
import SpeedupStudy.Failure
import SpeedupStudy.Run.Name
import SpeedupStudy.Speedup

namespace SpeedupStudy

/-- A run with its speedups, and the log they were computed from. -/
structure Row where
  run : Run
  speedup : Speedup
  source : Path
deriving DecidableEq

/-- The weighted speedup of a run. -/
def Row.sum (row : Row) : Float :=
  row.speedup.sum

/-- Why a log gave no row. -/
inductive SkipCause where
  | unparseableName (cause : NameError)
  | unresolved (cause : ResolveError)
  | unreadable (cause : IoError)
  /-- An earlier log describes the same run. -/
  | duplicate
deriving DecidableEq, Repr

/-- The wording of a skip cause. -/
def SkipCause.message : SkipCause → String
  | unparseableName cause => "unparseable file name: " ++ cause.message
  | unresolved cause => "unresolved run: " ++ cause.message
  | unreadable cause => "unreadable log: " ++ cause.report
  | duplicate => "duplicate of an earlier log for the same run"

/-- A log that gave no row. -/
structure SkippedLog where
  path : Path
  cause : SkipCause
deriving DecidableEq, Repr

/-- The counts of a pass. -/
structure PassSummary where
  scenario : Scenario := .benign
  discovered : Nat := 0
  /-- The files of the other scenario. -/
  otherScenario : Nat := 0
  processed : Nat := 0
  skipped : Nat := 0
  unparseableNames : Nat := 0
  unresolvedRuns : Nat := 0
  unreadableLogs : Nat := 0
  duplicates : Nat := 0
  rows : Nat := 0
  crashed : Nat := 0
  faulted : Nat := 0
  threads : Nat := 0
  elapsedMs : Nat := 0
  timestamp : String := ""
deriving DecidableEq, Repr

/-- Whether every file of the scenario gave a row. -/
def PassSummary.allProcessed (s : PassSummary) : Bool :=
  s.skipped == 0

/-- What a pass gives. -/
structure Collection where
  /-- One row for each run, in the order of runs. -/
  rows : List Row := []
  /-- The skipped files in the order of paths. -/
  skipped : List SkippedLog := []
  summary : PassSummary := {}
  /-- The cores of the machine, which is the number of speedups in each row. -/
  coreCount : Nat := 16
deriving DecidableEq

namespace Collection

/-- The rows of a method. -/
def rowsForMethod (c : Collection) (method : String) : List Row :=
  c.rows.filter (·.run.method == method)

/-- The rows of a mode. -/
def rowsForMode (c : Collection) (mode : Mode) : List Row :=
  c.rows.filter (·.run.mode == mode)

/-- The rows of runs that did not complete without a fault. -/
def invalidRows (c : Collection) : List Row :=
  c.rows.filter (! ·.speedup.isValid)

end Collection

end SpeedupStudy
