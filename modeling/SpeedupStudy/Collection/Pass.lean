/-
# A pass over logs

A log is admitted by its name: it must name a run of the scenario of the pass, and the catalog must
know the solo rates of its cores. Only then is it read and scored. The rows are sorted by run, and
of several logs for one run the first in that order counts: a name without a scenario precedes one
with it, and after that the place in the list of files decides, as the sort is stable.
-/

import SpeedupStudy.Collection.Basic
import SpeedupStudy.Run.Order
import SpeedupStudy.Sort

namespace SpeedupStudy

/-- What becomes of a file. -/
inductive Outcome where
  | row (row : Row)
  /-- It belongs to the other scenario. -/
  | otherScenario
  | skipped (file : SkippedLog)
deriving DecidableEq

/-- What the name of a file tells: its outcome, or the run and the solo rates to score it with. -/
inductive Admission where
  | settled (outcome : Outcome)
  | admitted (run : Run) (solo : List Float)

/-- A configuration with the catalog of its runs. -/
structure Pass where
  config : Config
  catalog : Catalog

namespace Pass

/-- Judge a file by its name. -/
def admission (pass : Pass) (path : Path) : Except Abort Admission :=
  match Run.ofPath path with
  | .error cause => .ok (.settled (.skipped ⟨path, .unparseableName cause⟩))
  | .ok run =>
    if ! run.belongsTo pass.config.collection.scenario then .ok (.settled .otherScenario)
    else
      (pass.catalog.soloIpcs? run pass.config.collection.machine).map fun
        | .error cause => .settled (.skipped ⟨path, .unresolved cause⟩)
        | .ok solo => .admitted run solo

/-- Score an admitted file by what came of reading it. -/
def score (pass : Pass) (path : Path) (run : Run) (solo : List Float)
    (contents : Except IoError Bytes) : Except Abort Outcome :=
  (pass.config.collection.logReader.readContents? contents).map fun
    | .error cause => .skipped ⟨path, .unreadable cause⟩
    | .ok log => .row ⟨run, Speedup.ofLog log solo, path⟩

/-- What becomes of a file, given what comes of reading it. -/
def outcome (pass : Pass) (path : Path) (contents : Except IoError Bytes) :
    Except Abort Outcome :=
  match pass.admission path with
  | .error event => .error event
  | .ok (.settled outcome) => .ok outcome
  | .ok (.admitted run solo) => pass.score path run solo contents

/-- The rows, the skipped files and the number of files of the other scenario. -/
structure Tally where
  rows : List Row := []
  skipped : List SkippedLog := []
  otherScenario : Nat := 0

/-- Add an outcome in front of a tally. -/
def Tally.add (tally : Tally) : Outcome → Tally
  | .row row => { tally with rows := row :: tally.rows }
  | .otherScenario => { tally with otherScenario := tally.otherScenario + 1 }
  | .skipped file => { tally with skipped := file :: tally.skipped }

/-- The tally of some outcomes, which keep their order. -/
def Tally.ofList (outcomes : List Outcome) : Tally :=
  outcomes.foldr (fun outcome tally => tally.add outcome) {}

/-- Part sorted rows into the first row of each run and the rows that repeat the latest of them. -/
def separate : Option Row → List Row → List Row × List Row
  | _, [] => ([], [])
  | kept, row :: rest =>
    if kept.any fun kept => kept.run.sameKey row.run then
      let (unique, repeated) := separate kept rest
      (unique, row :: repeated)
    else
      let (unique, repeated) := separate (some row) rest
      (row :: unique, repeated)

/-- The counts of a pass without those of its host. -/
def summarize (pass : Pass) (discovered otherScenario : Nat) (rows : List Row)
    (skipped : List SkippedLog) : PassSummary where
  scenario := pass.config.collection.scenario
  discovered := discovered
  otherScenario := otherScenario
  processed := rows.length
  skipped := skipped.length
  unparseableNames := skipped.countP (·.cause matches .unparseableName _)
  unresolvedRuns := skipped.countP (·.cause matches .unresolved _)
  unreadableLogs := skipped.countP (·.cause matches .unreadable _)
  duplicates := skipped.countP (·.cause matches .duplicate)
  rows := rows.length
  crashed := rows.countP (·.speedup.status == .crashed)
  faulted := rows.countP (·.speedup.status == .faulted)

/-- The results of a pass over files with these outcomes, in the order of the files. -/
def assemble (pass : Pass) (outcomes : List Outcome) : Collection :=
  let tally := Tally.ofList outcomes
  let (rows, repeated) := separate none (sortBy (fun a b => a.run.compare b.run) tally.rows)
  let duplicates := repeated.map fun row => ⟨row.source, .duplicate⟩
  let skipped := sortBy (fun a b => a.path.compare b.path) (tally.skipped ++ duplicates)
  { rows, skipped
    summary := pass.summarize outcomes.length tally.otherScenario rows skipped
    coreCount := pass.config.collection.machine.coreCount }

end Pass

end SpeedupStudy
