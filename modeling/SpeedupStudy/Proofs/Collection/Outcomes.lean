/-
# What a pass does on a disk

A pass over a list of files reads them one after another and changes nothing on the disk, so its
results are those assembled from what becomes of each file on the disk as it was found. A reporter
may keep what it hears, but it has no part in the results. A pass ends early only where the machine
has more cores than memory can list.
-/

import SpeedupStudy.Collection.Collect
import SpeedupStudy.Proofs.Execution

namespace SpeedupStudy

variable {σ : Type}

/-- A reporter that keeps what it hears in the state of its program. -/
def Reporter.observing (onProgress : Progress → σ → σ) (onComplete : PassSummary → σ → σ) :
    Reporter (StateT σ DiskM) where
  onProgress progress := modify (onProgress progress)
  onComplete summary := modify (onComplete summary)

namespace Pass

/-- A machine whose cores memory can list has no run with more solo rates than that. -/
theorem canListSoloIpcs_of_fitsInMemory (catalog : Catalog) (run : Run) (machine : Machine)
    (fits : fitsInMemory numberSize machine.coreCount = true) :
    catalog.canListSoloIpcs run machine = true := by
  have bound : 8 * machine.coreCount < 2 ^ 63 := of_decide_eq_true fits
  have fewer : fitsInMemory numberSize (machine.benignCores run.effectiveScenario) = true := by
    refine decide_eq_true (?_ : 8 * machine.benignCores run.effectiveScenario < 2 ^ 63)
    unfold Machine.benignCores
    omega
  simp [Catalog.canListSoloIpcs, fewer]

/-- All that can become of a file: its name names no run or one of the other scenario, the run has no
solo rates, the log cannot be read, or the log is scored. A pass ends where memory cannot list the
rates of a run or the cores of the machine. -/
inductive Judged (pass : Pass) (path : Path) (contents : Except IoError Bytes) :
    Except Abort Outcome → Prop where
  | unnamed {cause : NameError} (unnamed : Run.ofPath path = .error cause) :
      Judged pass path contents (.ok (.skipped ⟨path, .unparseableName cause⟩))
  | otherScenario {run : Run} (named : Run.ofPath path = .ok run)
      (other : run.effectiveScenario ≠ pass.config.collection.scenario) :
      Judged pass path contents (.ok .otherScenario)
  | tooManyRates {run : Run} (named : Run.ofPath path = .ok run)
      (full : pass.catalog.canListSoloIpcs run pass.config.collection.machine = false) :
      Judged pass path contents (.error .capacityOverflow)
  | unresolved {run : Run} {cause : ResolveError} (named : Run.ofPath path = .ok run)
      (scenario : run.effectiveScenario = pass.config.collection.scenario)
      (unresolved : pass.catalog.soloIpcs run pass.config.collection.machine = .error cause) :
      Judged pass path contents (.ok (.skipped ⟨path, .unresolved cause⟩))
  | unreadable {run : Run} {solo : List Float} {cause : IoError}
      (named : Run.ofPath path = .ok run)
      (scenario : run.effectiveScenario = pass.config.collection.scenario)
      (resolved : pass.catalog.soloIpcs run pass.config.collection.machine = .ok solo)
      (unreadable : contents = .error cause) :
      Judged pass path contents (.ok (.skipped ⟨path, .unreadable cause⟩))
  | tooManyCores
      (full : fitsInMemory numberSize pass.config.collection.coreCount.toNat = false) :
      Judged pass path contents (.error .capacityOverflow)
  | scored {run : Run} {solo : List Float} {log : Bytes} (named : Run.ofPath path = .ok run)
      (scenario : run.effectiveScenario = pass.config.collection.scenario)
      (resolved : pass.catalog.soloIpcs run pass.config.collection.machine = .ok solo)
      (read : contents = .ok log) :
      Judged pass path contents
        (.ok (.row ⟨run, Speedup.ofLog (pass.config.collection.logReader.read log) solo, path⟩))

theorem judged_outcome (pass : Pass) (path : Path) (contents : Except IoError Bytes) :
    Judged pass path contents (pass.outcome path contents) := by
  unfold outcome admission
  cases named : Run.ofPath path with
  | error cause => exact .unnamed named
  | ok run =>
      by_cases scenario : run.effectiveScenario = pass.config.collection.scenario
      · have member : run.belongsTo pass.config.collection.scenario = true := by
          simpa [Run.belongsTo] using scenario
        simp only [member, Bool.not_true, Bool.false_eq_true, if_false, Catalog.soloIpcs?]
        by_cases listed :
            pass.catalog.canListSoloIpcs run pass.config.collection.machine = true
        · rw [if_pos listed]
          cases resolved : pass.catalog.soloIpcs run pass.config.collection.machine with
          | error cause => exact .unresolved named scenario resolved
          | ok solo =>
              simp only [Except.map, score, LogReader.readContents?, LogReader.read?]
              cases read : contents with
              | error cause =>
                  by_cases full : (decide (cause = .isADirectory) &&
                      ! fitsInMemory numberSize pass.config.collection.logReader.coreCount) = true
                  · simp only [if_pos full]
                    have short := (Bool.and_eq_true_iff.mp full).2
                    rw [Bool.not_eq_true'] at short
                    exact .tooManyCores short
                  · simp only [if_neg full]
                    exact .unreadable named scenario resolved rfl
              | ok log =>
                  by_cases fits :
                      fitsInMemory numberSize pass.config.collection.logReader.coreCount = true
                  · simp only [if_pos fits]
                    exact .scored named scenario resolved rfl
                  · simp only [if_neg fits]
                    exact .tooManyCores (Bool.eq_false_iff.mpr fits)
        · rw [if_neg listed]
          exact .tooManyRates named (by simpa using listed)
      · have foreign : run.belongsTo pass.config.collection.scenario = false := by
          simpa [Run.belongsTo] using scenario
        simp only [foreign, Bool.not_false, if_true]
        exact .otherScenario named scenario

/-- What becomes of a file on a disk, unless it ends the pass. -/
def outcome? (pass : Pass) (disk : Disk) (path : Path) : Option Outcome :=
  (pass.outcome path (disk.read path)).toOption

/-- What becomes of each file on a disk, or what ends the pass. -/
def outcomes (pass : Pass) (disk : Disk) : List Path → Except Abort (List Outcome)
  | [] => .ok []
  | path :: rest =>
    match pass.outcome path (disk.read path) with
    | .error event => .error event
    | .ok outcome => (pass.outcomes disk rest).map (outcome :: ·)

/-- The outcomes of a pass that does not end early are those of its files, one for each. -/
theorem map_outcome?_of_outcomes {pass : Pass} {disk : Disk} {files : List Path}
    {outcomes : List Outcome} (found : pass.outcomes disk files = .ok outcomes) :
    files.map (pass.outcome? disk) = outcomes.map some := by
  induction files generalizing outcomes with
  | nil =>
      cases found
      rfl
  | cons path rest ih =>
      simp only [Pass.outcomes] at found
      cases first : pass.outcome path (disk.read path) with
      | error event => simp [first] at found
      | ok outcome =>
          cases later : pass.outcomes disk rest with
          | error event => simp [first, later, Except.map] at found
          | ok others =>
              simp only [first, later, Except.map, Except.ok.injEq] at found
              rw [← found, List.map_cons, List.map_cons, ih later, outcome?, first]
              rfl

/-- The results of a pass on a disk, where it takes no time, over files with these outcomes. -/
def results (pass : Pass) (outcomes : List Outcome) : Collection :=
  let collection := pass.assemble outcomes
  let threads := (pass.config.execution.threads.map UInt64.toNat).getD 0
  { collection with summary := { collection.summary with threads } }

/-- A file ends a pass only where memory cannot list the cores of the machine. -/
theorem outcome_of_fitsInMemory {pass : Pass} (path : Path) (contents : Except IoError Bytes)
    (fits : fitsInMemory numberSize pass.config.collection.coreCount.toNat = true) :
    ∃ outcome, pass.outcome path contents = .ok outcome := by
  have judged := judged_outcome pass path contents
  generalize pass.outcome path contents = result at judged ⊢
  cases judged with
  | @tooManyRates run named full =>
      have listed := canListSoloIpcs_of_fitsInMemory pass.catalog run
        pass.config.collection.machine fits
      exact absurd (listed.symm.trans full) (by decide)
  | tooManyCores full => exact absurd (fits.symm.trans full) (by decide)
  | _ => exact ⟨_, rfl⟩

/-- A pass ends early only where memory cannot list the cores of the machine. -/
theorem outcomes_of_fitsInMemory {pass : Pass} (disk : Disk) (files : List Path)
    (fits : fitsInMemory numberSize pass.config.collection.coreCount.toNat = true) :
    ∃ outcomes, pass.outcomes disk files = .ok outcomes := by
  induction files with
  | nil => exact ⟨[], rfl⟩
  | cons path rest ih =>
      obtain ⟨outcome, first⟩ := outcome_of_fitsInMemory path (disk.read path) fits
      obtain ⟨others, later⟩ := ih
      exact ⟨outcome :: others, by simp only [Pass.outcomes, first, later, Except.map]⟩

section Running

variable (pass : Pass) (onProgress : Progress → σ → σ) (onComplete : PassSummary → σ → σ)

/-- A file is read from the disk, and only that is done there. -/
theorem onDisk_process (path : Path) (state : σ) (disk : Disk) :
    onDisk (pass.process path : Attempt (StateT σ DiskM) Outcome) state disk =
      ⟨(pass.outcome path (disk.read path)).mapError Failure.aborted, state, disk⟩ := by
  rw [process, onDisk_bind, onDisk_unlessAborted, outcome]
  cases pass.admission path with
  | error event => rfl
  | ok admission =>
      cases admission with
      | settled outcome => rfl
      | admitted run solo =>
          simp only [Except.mapError, Ended.andThen_ok, onDisk_bind, onDisk_read,
            onDisk_unlessAborted]

/-- The files of a pass are processed as on the disk at its start. -/
theorem onDisk_processAll (total completed : Nat) (files : List Path) (state : σ) (disk : Disk) :
    ∃ heard, onDisk (pass.processAll (Reporter.observing onProgress onComplete) total completed
        files) state disk =
      ⟨(pass.outcomes disk files).mapError Failure.aborted, heard, disk⟩ := by
  induction files generalizing completed state with
  | nil => exact ⟨state, rfl⟩
  | cons path rest ih =>
      have report : onDisk (ExceptT.lift ((Reporter.observing onProgress onComplete).onProgress
          ⟨path.display, completed, total⟩) : Attempt (StateT σ DiskM) Unit) state disk =
            ⟨.ok (), onProgress ⟨path.display, completed, total⟩ state, disk⟩ := rfl
      rw [processAll, onDisk_bind, report, Ended.andThen_ok, onDisk_bind, onDisk_process,
        Pass.outcomes]
      cases pass.outcome path (disk.read path) with
      | error event => exact ⟨_, rfl⟩
      | ok outcome =>
          obtain ⟨heard, later⟩ := ih (completed + 1)
            (onProgress ⟨path.display, completed, total⟩ state)
          refine ⟨heard, ?_⟩
          simp only [Except.mapError, Ended.andThen_ok, onDisk_bind, later]
          cases pass.outcomes disk rest <;> rfl

@[simp]
theorem onDisk_milliseconds (state : σ) (disk : Disk) :
    onDisk (ExceptT.lift Host.milliseconds : Attempt (StateT σ DiskM) Nat) state disk =
      ⟨.ok 0, state, disk⟩ :=
  rfl

@[simp]
theorem onDisk_defaultThreads (state : σ) (disk : Disk) :
    onDisk (ExceptT.lift Host.defaultThreads : Attempt (StateT σ DiskM) Nat) state disk =
      ⟨.ok 0, state, disk⟩ :=
  rfl

/-- A pass over a list of files leaves the disk as it is, and its results are assembled from the
outcomes of the files there. -/
theorem onDisk_collectFiles (files : List Path) (state : σ) (disk : Disk) :
    ∃ heard, onDisk (pass.collectFiles (Reporter.observing onProgress onComplete) files) state disk =
      ⟨((pass.outcomes disk files).map pass.results).mapError Failure.aborted, heard, disk⟩ := by
  obtain ⟨heard, processed⟩ :=
    onDisk_processAll pass onProgress onComplete files.length 0 files state disk
  cases setting : pass.config.execution.threads <;>
    simp only [collectFiles, setting, onDisk_bind, onDisk_milliseconds, onDisk_defaultThreads,
      onDisk_pure, Ended.andThen_ok, processed]
  all_goals
    cases pass.outcomes disk files with
    | error event => exact ⟨heard, rfl⟩
    | ok outcomes =>
        refine ⟨onComplete (pass.results outcomes).summary heard, ?_⟩
        simp only [Except.map, Except.mapError, results, setting]
        rfl

variable {pass onProgress onComplete} in
/-- The results that a pass gives are assembled from the outcomes of its files. -/
theorem results_of_onDisk_collectFiles {files : List Path} {state heard : σ} {disk disk' : Disk}
    {output : Collection}
    (done : onDisk (pass.collectFiles (Reporter.observing onProgress onComplete) files) state disk =
      ⟨.ok output, heard, disk'⟩) :
    disk' = disk ∧ ∃ outcomes, pass.outcomes disk files = .ok outcomes ∧
      output = pass.results outcomes := by
  obtain ⟨_, collected⟩ := onDisk_collectFiles pass onProgress onComplete files state disk
  rw [collected] at done
  cases found : pass.outcomes disk files with
  | error event => rw [found] at done; cases done
  | ok outcomes =>
      rw [found] at done
      cases done
      exact ⟨rfl, outcomes, rfl, rfl⟩

/-- A pass whose cores memory can list gives results. -/
theorem exists_onDisk_collectFiles (files : List Path) (state : σ) (disk : Disk)
    (fits : fitsInMemory numberSize pass.config.collection.coreCount.toNat = true) :
    ∃ output heard,
      onDisk (pass.collectFiles (Reporter.observing onProgress onComplete) files) state disk =
        ⟨.ok output, heard, disk⟩ := by
  obtain ⟨heard, collected⟩ := onDisk_collectFiles pass onProgress onComplete files state disk
  obtain ⟨outcomes, found⟩ := outcomes_of_fitsInMemory disk files fits
  exact ⟨pass.results outcomes, heard, by rw [collected, found]; rfl⟩

end Running

end Pass

end SpeedupStudy
