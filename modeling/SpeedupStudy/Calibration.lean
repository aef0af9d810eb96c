/-
# Measuring solo rates

The solo rate of a trace is the rate of a benign baseline run in which it runs alone. Of the logs
of such runs, the first one in path order that can be read decides the trace: either it measures a
positive rate, or the run crashed. Logs of a trace that is decided are not read any more.
-/

import SpeedupStudy.Collection.Discovery
import SpeedupStudy.Log.Basic

namespace SpeedupStudy

/-- What the solo runs below a root tell. -/
structure Calibration where
  /-- The measured rates. -/
  ipcs : NameMap Float := .empty
  /-- The traces whose run reported no rate. -/
  crashed : List String := []
  /-- The logs that could not be read. -/
  unreadable : List Path := []
  /-- The logs of traces that an earlier log decided. -/
  duplicates : List Path := []
deriving DecidableEq

namespace Calibration

/-- Whether a run is a benign baseline run of one trace alone. -/
def isSoloRun (run : Run) : Bool :=
  run.isBaseline && run.mode == .single && run.belongsTo .benign

/-- The trace that a log measures, by its name. -/
def soloTrace? (path : Path) : Option String :=
  match Run.ofPath path with
  | .ok run => if isSoloRun run then some run.workload else none
  | .error _ => none

/-- Whether an earlier log decided a trace. -/
def decides (c : Calibration) (trace : String) : Bool :=
  c.ipcs.contains trace || c.crashed.contains trace

/-- The calibration after a log of a trace that is not decided. -/
def add (c : Calibration) (path : Path) (trace : String) :
    Except IoError RunLog → Calibration
  | .error _ => { c with unreadable := c.unreadable ++ [path] }
  | .ok log =>
    if 0.0 < log.ipc then { c with ipcs := c.ipcs.insert trace log.ipc }
    else { c with crashed := c.crashed ++ [trace] }

/-- The calibration after a log of a trace that is decided. -/
def addDuplicate (c : Calibration) (path : Path) : Calibration :=
  { c with duplicates := c.duplicates ++ [path] }

/-- Whether nothing was measured. -/
def isEmpty (c : Calibration) : Bool :=
  c.ipcs.size == 0

/-- A catalog with the measured rates put in. -/
def apply (c : Calibration) (catalog : Catalog) : Catalog :=
  catalog.withTraceIpcs c.ipcs

variable {m : Type → Type} [Monad m] [Files m]

/-- The calibration after one more file. -/
def next (reader : LogReader) (c : Calibration) (path : Path) : Attempt m Calibration :=
  match soloTrace? path with
  | none => return c
  | some trace => do
    if c.decides trace then return c.addDuplicate path
    else
      let contents ← ExceptT.lift (Files.read path)
      return c.add path trace (← Attempt.unlessAborted (reader.readContents? contents))

/-- Measure the solo rates of the logs below a root. -/
def measure (reader : LogReader) (root : Path) : Attempt m Calibration := do
  (← discover root).foldlM (next reader) {}

end Calibration

end SpeedupStudy
