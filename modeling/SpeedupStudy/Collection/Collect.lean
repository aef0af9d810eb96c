/-
# Running a pass

The files of a pass are taken in order, and a reporter hears of each one before it is read and of
the summary at the end. What the reporter does has no influence on the results.
-/

import SpeedupStudy.Collection.Discovery
import SpeedupStudy.Collection.Pass
import SpeedupStudy.Host

namespace SpeedupStudy

/-- How far a pass has come when it turns to a file. -/
structure Progress where
  file : String
  completed : Nat
  total : Nat
deriving DecidableEq, Repr

/-- The finished part of a pass in percent. A pass over no files is finished. -/
def Progress.percent (p : Progress) : Float :=
  if p.total = 0 then 100.0
  else UInt64.toFloat (.ofNat p.completed) / UInt64.toFloat (.ofNat p.total) * 100.0

/-- What hears of the progress of a pass. -/
structure Reporter (m : Type → Type) where
  onProgress : Progress → m Unit
  onComplete : PassSummary → m Unit

/-- The reporter that does nothing. -/
def Reporter.silent {m : Type → Type} [Monad m] : Reporter m :=
  ⟨fun _ => pure (), fun _ => pure ()⟩

namespace Pass

variable {m : Type → Type} [Monad m] [Files m] [Host m]

/-- Find out what becomes of a file. It is read only if its name does not settle it. -/
def process (pass : Pass) (path : Path) : Attempt m Outcome := do
  match ← Attempt.unlessAborted (pass.admission path) with
  | .settled outcome => return outcome
  | .admitted run solo =>
    let contents ← ExceptT.lift (Files.read path)
    Attempt.unlessAborted (pass.score path run solo contents)

/-- Find out what becomes of each file, after some of them all have been finished. -/
def processAll (pass : Pass) (reporter : Reporter m) (total : Nat) :
    Nat → List Path → Attempt m (List Outcome)
  | _, [] => return []
  | completed, path :: rest => do
    ExceptT.lift (reporter.onProgress ⟨path.display, completed, total⟩)
    let outcome ← pass.process path
    return outcome :: (← pass.processAll reporter total (completed + 1) rest)

/-- Run a pass over a list of files. -/
def collectFiles (pass : Pass) (reporter : Reporter m) (files : List Path) :
    Attempt m Collection := do
  let start ← ExceptT.lift Host.milliseconds
  let threads ← match pass.config.execution.threads with
    | some threads => pure threads.toNat
    | none => ExceptT.lift Host.defaultThreads
  let outcomes ← pass.processAll reporter files.length 0 files
  let collection := pass.assemble outcomes
  let elapsedMs := (← ExceptT.lift Host.milliseconds) - start
  let timestamp ← ExceptT.lift Host.timestamp
  let summary := { collection.summary with threads, elapsedMs, timestamp }
  ExceptT.lift (reporter.onComplete summary)
  return { collection with summary }

/-- Run a pass over all logs below a root. -/
def collect (pass : Pass) (reporter : Reporter m) (root : Path) : Attempt m Collection := do
  pass.collectFiles reporter (← discover root)

end Pass

end SpeedupStudy
