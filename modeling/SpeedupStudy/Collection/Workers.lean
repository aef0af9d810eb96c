/-
# A pass on several workers

The files of a pass are shared out among workers. A worker takes a file that no one has taken and
reads how many files are finished, it reports the file with this number, it finds out what becomes
of the file, and last it adds one to the number of finished files. Each of these is one step, and
the steps of different workers may come in any order. When all files are finished, the results are
assembled in the order of the list of files, and the reporter hears of the summary.
-/

import SpeedupStudy.Collection.Collect

namespace SpeedupStudy

/-- What the reporter of a pass hears. -/
inductive Notice where
  | progress (progress : Progress)
  | complete (summary : PassSummary)
deriving DecidableEq

/-- How far a file has come. -/
inductive Stage where
  | waiting
  /-- A worker has read the number of finished files. -/
  | noted (worker completed : Nat)
  | reported (worker : Nat)
  | processed (worker : Nat) (outcome : Outcome)
  | finished (outcome : Outcome)
  /-- An event that ends the pass came while the file was processed. -/
  | aborted (event : Abort)

namespace Stage

/-- The worker that is at work on a file. -/
def worker? : Stage → Option Nat
  | noted worker _ | reported worker | processed worker _ => some worker
  | waiting | finished _ | aborted _ => none

/-- Whether a file is finished. -/
def isFinished : Stage → Bool
  | finished _ => true
  | _ => false

/-- Whether the reporter has heard of a file. -/
def isReported : Stage → Bool
  | waiting | noted _ _ => false
  | _ => true

end Stage

/-- A file of a pass. -/
structure Job where
  path : Path
  stage : Stage

/-- A pass over some files on a disk by one or more workers. -/
structure Shift where
  pass : Pass
  disk : Disk
  files : List Path
  workers : Nat
  staffed : 0 < workers

namespace Shift

/-- The files in the order of the list, the number of finished files that the workers share, what
the reporter has heard, and the results of a pass that has ended. -/
structure State where
  jobs : List Job
  counter : Nat := 0
  heard : List Notice := []
  output : Option Collection := none

/-- The start of a pass. -/
def start (shift : Shift) : State :=
  { jobs := shift.files.map (⟨·, .waiting⟩) }

/-- The number of threads that the summary of a pass tells: the one that is set, and otherwise that
of the workers. -/
def threads (shift : Shift) : Nat :=
  (shift.pass.config.execution.threads.map UInt64.toNat).getD shift.workers

/-- The results of a pass over files with these outcomes, with the time that it took and its end. -/
def gather (shift : Shift) (outcomes : List Outcome) (elapsedMs : Nat) (timestamp : String) :
    Collection :=
  let collection := shift.pass.assemble outcomes
  let summary := { collection.summary with threads := shift.threads, elapsedMs, timestamp }
  { collection with summary }

/-- One step of a pass. -/
inductive Step (shift : Shift) : State → State → Prop
  /-- A worker that has no file takes one. -/
  | take {before after : List Job} {path : Path} {counter worker : Nat} {heard : List Notice}
      (hired : worker < shift.workers)
      (idle : ∀ job ∈ before ++ after, job.stage.worker? ≠ some worker) :
      Step shift ⟨before ++ ⟨path, .waiting⟩ :: after, counter, heard, none⟩
        ⟨before ++ ⟨path, .noted worker counter⟩ :: after, counter, heard, none⟩
  | report {before after : List Job} {path : Path} {counter worker completed : Nat}
      {heard : List Notice} :
      Step shift ⟨before ++ ⟨path, .noted worker completed⟩ :: after, counter, heard, none⟩
        ⟨before ++ ⟨path, .reported worker⟩ :: after, counter,
          heard ++ [.progress ⟨path.display, completed, shift.files.length⟩], none⟩
  | process {before after : List Job} {path : Path} {counter worker : Nat} {heard : List Notice}
      {outcome : Outcome}
      (found : shift.pass.outcome path (shift.disk.read path) = .ok outcome) :
      Step shift ⟨before ++ ⟨path, .reported worker⟩ :: after, counter, heard, none⟩
        ⟨before ++ ⟨path, .processed worker outcome⟩ :: after, counter, heard, none⟩
  | abort {before after : List Job} {path : Path} {counter worker : Nat} {heard : List Notice}
      {event : Abort}
      (found : shift.pass.outcome path (shift.disk.read path) = .error event) :
      Step shift ⟨before ++ ⟨path, .reported worker⟩ :: after, counter, heard, none⟩
        ⟨before ++ ⟨path, .aborted event⟩ :: after, counter, heard, none⟩
  | finish {before after : List Job} {path : Path} {counter worker : Nat} {heard : List Notice}
      {outcome : Outcome} :
      Step shift ⟨before ++ ⟨path, .processed worker outcome⟩ :: after, counter, heard, none⟩
        ⟨before ++ ⟨path, .finished outcome⟩ :: after, counter + 1, heard, none⟩
  /-- The pass ends when all files are finished. -/
  | complete {jobs : List Job} {counter : Nat} {heard : List Notice} {outcomes : List Outcome}
      {elapsedMs : Nat} {timestamp : String}
      (finished : jobs.map (·.stage) = outcomes.map .finished) :
      Step shift ⟨jobs, counter, heard, none⟩
        ⟨jobs, counter, heard ++ [.complete (shift.gather outcomes elapsedMs timestamp).summary],
          some (shift.gather outcomes elapsedMs timestamp)⟩

/-- The states that a pass can be in after so many steps. -/
inductive Reaches (shift : Shift) : Nat → State → Prop
  | start : Reaches shift 0 shift.start
  | step {steps : Nat} {s s' : State} (reached : Reaches shift steps s) (step : Step shift s s') :
      Reaches shift (steps + 1) s'

end Shift

end SpeedupStudy
