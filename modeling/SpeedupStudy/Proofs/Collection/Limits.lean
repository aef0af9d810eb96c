/-
# The limits of a pass

A configuration may have any number of cores, and a pass lists a number for each of them: the solo
rates of a rate run, and the counts of each log that it opens. Where memory cannot list them the
pass ends early, whatever the file holds that asked for them. This takes a vast machine, and it is
the only way in which a pass can end early.
-/

import SpeedupStudy.Proofs.Collection.InRange
import SpeedupStudy.Proofs.Collection.Reordering
import SpeedupStudy.Proofs.Catalog.Usable

namespace SpeedupStudy

theorem Catalog.canListSoloIpcs_eq_false_iff {c : Catalog} {run : Run} {machine : Machine} :
    c.canListSoloIpcs run machine = false ↔ run.mode = .rate ∧
      (∃ ipc, c.traceIpc? run.workload = some ipc) ∧
        fitsInMemory numberSize (machine.benignCores run.effectiveScenario) = false := by
  simp [canListSoloIpcs, Option.isSome_iff_exists, and_assoc]

/-- Reading a log ends the program exactly if it is opened and memory cannot list the cores. A
directory is opened, too. -/
theorem LogReader.readContents?_eq_error_iff {reader : LogReader}
    {contents : Except IoError Bytes} {event : Abort} :
    reader.readContents? contents = .error event ↔ event = .capacityOverflow ∧
      ((∃ log, contents = .ok log) ∨ contents = .error .isADirectory) ∧
        fitsInMemory numberSize reader.coreCount = false := by
  cases contents with
  | ok log =>
      cases fits : fitsInMemory numberSize reader.coreCount <;>
        simp [readContents?, read?, fits, Except.map, eq_comm]
  | error cause =>
      cases fits : fitsInMemory numberSize reader.coreCount <;>
        by_cases same : cause = .isADirectory <;> simp [readContents?, fits, same, eq_comm]

namespace Pass

/-- A pass needs more memory for a file than a block holds. It lists the solo rates of a rate run
whose trace is known, one for each core that is left to ordinary programs, and it lists the counts
of all cores for each log that it opens, even if the log turns out to be a directory. -/
inductive Overflows (pass : Pass) (path : Path) (contents : Except IoError Bytes) : Prop where
  | rates {run : Run} {ipc : Float} (named : Run.ofPath path = .ok run)
      (scenario : run.effectiveScenario = pass.config.collection.scenario) (rate : run.mode = .rate)
      (known : pass.catalog.traceIpc? run.workload = some ipc)
      (full : fitsInMemory numberSize
        (pass.config.collection.machine.benignCores run.effectiveScenario) = false)
  | counts {run : Run} {solo : List Float} (named : Run.ofPath path = .ok run)
      (scenario : run.effectiveScenario = pass.config.collection.scenario)
      (resolved : pass.catalog.soloIpcs run pass.config.collection.machine = .ok solo)
      (opened : (∃ log, contents = .ok log) ∨ contents = .error .isADirectory)
      (full : fitsInMemory numberSize pass.config.collection.coreCount.toNat = false)

variable {pass : Pass} {path : Path} {contents : Except IoError Bytes}

/-- A file of the right scenario is resolved first and then scored. -/
theorem outcome_of_named {run : Run} (named : Run.ofPath path = .ok run)
    (scenario : run.effectiveScenario = pass.config.collection.scenario) :
    pass.outcome path contents =
      match pass.catalog.soloIpcs? run pass.config.collection.machine with
      | .error event => .error event
      | .ok (.error cause) => .ok (.skipped ⟨path, .unresolved cause⟩)
      | .ok (.ok solo) => pass.score path run solo contents := by
  have member : run.belongsTo pass.config.collection.scenario = true := by
    simpa [Run.belongsTo] using scenario
  simp only [outcome, admission, named, member, Bool.not_true, Bool.false_eq_true, if_false]
  rcases pass.catalog.soloIpcs? run pass.config.collection.machine with event | cause | solo <;> rfl

/-- A file ends the pass exactly if it needs more memory than a block holds. -/
theorem outcome_eq_error_iff {event : Abort} : pass.outcome path contents = .error event ↔
    event = .capacityOverflow ∧ pass.Overflows path contents := by
  have scored : ∀ run solo, pass.score path run solo contents = .error event ↔
      pass.config.collection.logReader.readContents? contents = .error event := by
    intro run solo
    rw [score]
    cases pass.config.collection.logReader.readContents? contents <;> simp [Except.map]
  constructor
  · intro ended
    cases named : Run.ofPath path with
    | error cause => simp [outcome, admission, named] at ended
    | ok run =>
        by_cases scenario : run.effectiveScenario = pass.config.collection.scenario
        · rw [outcome_of_named named scenario, Catalog.soloIpcs?] at ended
          cases listed :
              pass.catalog.canListSoloIpcs run pass.config.collection.machine with
          | false =>
              obtain ⟨rate, ⟨ipc, known⟩, full⟩ := Catalog.canListSoloIpcs_eq_false_iff.mp listed
              simp only [listed, Bool.false_eq_true, if_false, Except.error.injEq] at ended
              exact ⟨ended.symm, .rates named scenario rate known full⟩
          | true =>
              simp only [listed, if_true] at ended
              cases resolved : pass.catalog.soloIpcs run pass.config.collection.machine with
              | error cause => simp [resolved] at ended
              | ok solo =>
                  rw [resolved] at ended
                  obtain ⟨overflow, opened, full⟩ :=
                    LogReader.readContents?_eq_error_iff.mp ((scored run solo).mp ended)
                  exact ⟨overflow, .counts named scenario resolved opened full⟩
        · have foreign : run.belongsTo pass.config.collection.scenario = false := by
            simpa [Run.belongsTo] using scenario
          simp [outcome, admission, named, foreign] at ended
  · rintro ⟨rfl, overflows⟩
    cases overflows with
    | rates named scenario rate known full =>
        have listed := Catalog.canListSoloIpcs_eq_false_iff.mpr ⟨rate, ⟨_, known⟩, full⟩
        simp [outcome_of_named named scenario, Catalog.soloIpcs?, listed]
    | @counts run solo named scenario resolved opened full =>
        rw [outcome_of_named named scenario, Catalog.soloIpcs?]
        cases pass.catalog.canListSoloIpcs run pass.config.collection.machine with
        | false => rfl
        | true =>
            rw [if_pos rfl, resolved]
            exact (scored run solo).mpr
              (LogReader.readContents?_eq_error_iff.mpr ⟨rfl, opened, full⟩)

theorem outcome?_eq_none_iff {disk : Disk} :
    pass.outcome? disk path = none ↔ pass.Overflows path (disk.read path) := by
  rw [outcome?]
  constructor
  · intro ended
    cases result : pass.outcome path (disk.read path) with
    | error event => exact (outcome_eq_error_iff.mp result).2
    | ok outcome => simp [result, Except.toOption] at ended
  · intro overflows
    rw [outcome_eq_error_iff.mpr ⟨rfl, overflows⟩]
    rfl

/-- Only a machine with more cores than there is memory for one number each overflows. -/
theorem Overflows.le_coreCount (overflows : pass.Overflows path contents) :
    2 ^ 60 ≤ pass.config.collection.coreCount.toNat := by
  by_contra few
  have fits : fitsInMemory numberSize pass.config.collection.coreCount.toNat = true :=
    decide_eq_true (by simp only [numberSize]; show _ < 2 ^ 63; omega)
  cases overflows with
  | @rates run ipc named scenario rate known full =>
      have listed := canListSoloIpcs_of_fitsInMemory pass.catalog run
        pass.config.collection.machine fits
      have unlisted := Catalog.canListSoloIpcs_eq_false_iff.mpr ⟨rate, ⟨_, known⟩, full⟩
      exact absurd (listed.symm.trans unlisted) (by decide)
  | counts named scenario resolved opened full => exact absurd (fits.symm.trans full) (by decide)

/-- A pass over files of a disk ends early exactly if one of them overflows. -/
theorem outcomes_eq_error_iff_overflows {disk : Disk} {files : List Path} {event : Abort} :
    pass.outcomes disk files = .error event ↔
      event = .capacityOverflow ∧ ∃ path ∈ files, pass.Overflows path (disk.read path) := by
  simp only [outcomes_eq_error_iff, outcome?_eq_none_iff]

/-- A pass over files of a disk reaches its end exactly if none of them overflows. -/
theorem exists_outcomes_iff {disk : Disk} {files : List Path} :
    (∃ outcomes, pass.outcomes disk files = .ok outcomes) ↔
      ∀ path ∈ files, ¬ pass.Overflows path (disk.read path) := by
  constructor
  · rintro ⟨outcomes, found⟩ path mem overflows
    have early := outcomes_eq_error_iff_overflows.mpr ⟨rfl, path, mem, overflows⟩
    rw [found] at early
    cases early
  · intro none
    cases found : pass.outcomes disk files with
    | ok outcomes => exact ⟨outcomes, rfl⟩
    | error event =>
        obtain ⟨-, path, mem, overflows⟩ := outcomes_eq_error_iff_overflows.mp found
        exact absurd overflows (none path mem)

/-- The counts of a row had a place in memory. -/
theorem fitsInMemory_of_mem_rows {disk : Disk} {files : List Path} {outcomes : List Outcome}
    (found : pass.outcomes disk files = .ok outcomes) {row : Row}
    (mem : row ∈ (pass.results outcomes).rows) :
    fitsInMemory numberSize row.speedup.perCore.length = true := by
  obtain ⟨earlier, later, rfl, eligible, -⟩ := exists_first_of_mem_rows found mem
  obtain ⟨solo, log, resolved, read, -⟩ := eligible.scored
  rw [eligible.length_perCore]
  by_contra full
  have overflows : pass.Overflows row.source (disk.read row.source) :=
    .counts eligible.named eligible.scenario resolved (.inl ⟨log, read⟩)
      (Bool.eq_false_iff.mpr full)
  exact exists_outcomes_iff.mp ⟨outcomes, found⟩ row.source
    (List.mem_append_right _ List.mem_cons_self) overflows

/-- A pass stays within the limits of the machine but for one. It takes the parts of a name and the
slots of a mix from positions that are there, and it never takes away more cores than there are. It
ends early exactly if memory cannot list what a file needs, which takes a machine of at least
`2 ^ 60` cores, and otherwise it gives results whose rows fit into memory. The disk stays as it is
in either case. -/
theorem collectFiles_within_limits {σ : Type} (pass : Pass) (files : List Path)
    (onProgress : Progress → σ → σ) (onComplete : PassSummary → σ → σ) (state : σ) (disk : Disk) :
    let ended := onDisk (pass.collectFiles (Reporter.observing onProgress onComplete) files) state
      disk
    ended.disk = disk ∧
    ((∃ output, ended.result = .ok output) ↔
      ∀ path ∈ files, ¬ pass.Overflows path (disk.read path)) ∧
    (∀ failure, ended.result = .error failure → failure = .aborted .capacityOverflow) ∧
    (∀ path ∈ files, pass.Overflows path (disk.read path) →
      2 ^ 60 ≤ pass.config.collection.coreCount.toNat) ∧
    (∀ output, ended.result = .ok output → ∀ row ∈ output.rows,
      fitsInMemory numberSize row.speedup.perCore.length = true) ∧
    (∀ tokens, Run.ofTokensAt? tokens = some (Run.ofTokens tokens)) ∧
    ∀ run machine,
      pass.catalog.soloIpcsAt? run machine = some (pass.catalog.soloIpcs run machine) := by
  intro ended
  obtain ⟨heard, done⟩ := onDisk_collectFiles pass onProgress onComplete files state disk
  have ended_eq : ended = _ := done
  have gives : ∀ output, ended.result = .ok output ↔
      ∃ outcomes, pass.outcomes disk files = .ok outcomes ∧ pass.results outcomes = output := by
    intro output
    rw [ended_eq]
    cases pass.outcomes disk files <;> simp [Except.map, Except.mapError]
  have ends : ∀ failure, ended.result = .error failure ↔
      ∃ event, pass.outcomes disk files = .error event ∧ Failure.aborted event = failure := by
    intro failure
    rw [ended_eq]
    cases pass.outcomes disk files <;> simp [Except.map, Except.mapError]
  refine ⟨by rw [ended_eq], ?_, ?_, fun _ _ overflows => overflows.le_coreCount, ?_,
    Run.ofTokensAt?_eq, pass.catalog.soloIpcsAt?_eq⟩
  · rw [← exists_outcomes_iff]
    constructor
    · rintro ⟨output, given⟩
      obtain ⟨outcomes, found, -⟩ := (gives output).mp given
      exact ⟨outcomes, found⟩
    · rintro ⟨outcomes, found⟩
      exact ⟨_, (gives _).mpr ⟨outcomes, found, rfl⟩⟩
  · intro failure given
    obtain ⟨event, early, rfl⟩ := (ends failure).mp given
    rw [(outcomes_eq_error_iff_overflows.mp early).1]
  · intro output given row mem
    obtain ⟨outcomes, found, rfl⟩ := (gives output).mp given
    exact fitsInMemory_of_mem_rows found mem

section Sample

/-- A log of a rate run and one of a run of one program, under the built-in catalog. -/
def sampleRate : Path :=
  Path.ofString "benign.para.512.rate.500_old.6468.out"

def sampleSingle : Path :=
  Path.ofString "benign.para.512.single.500_old.6468.out"

/-- A disk with a directory in the place of the second log and without the first one. -/
def misplacedLogs : Disk :=
  ⟨.directory [(sampleSingle.bytes, .directory [])]⟩

/-- A pass on a machine with this many cores. -/
def sampleMachine (coreCount : UInt64) : Pass :=
  ⟨Config.withCores {} coreCount 4, Catalog.builtin⟩

theorem overflows_sample {path : Path} (mem : path ∈ [sampleRate, sampleSingle]) :
    (sampleMachine 1152921504606846976).Overflows path (misplacedLogs.read path) := by
  rcases List.mem_pair.mp mem with rfl | rfl
  · have named : Run.ofPath sampleRate =
        .ok ⟨some .benign, "para", "512", .rate, "rate.500_old.6468"⟩ :=
      (Run.ofPath_eq_ofFileName "benign.para.512.rate.500_old.6468.out"
        (by decide +kernel)).trans rfl
    exact .rates named rfl rfl rfl (by decide)
  · have named : Run.ofPath sampleSingle =
        .ok ⟨some .benign, "para", "512", .single, "single.500_old.6468"⟩ :=
      (Run.ofPath_eq_ofFileName "benign.para.512.single.500_old.6468.out"
        (by decide +kernel)).trans rfl
    exact .counts named rfl rfl (.inr rfl) (by decide)

end Sample

/-- On a machine of sixteen cores a directory in the place of a log is skipped, and on a vast one it
ends the pass. -/
theorem collectFiles_within_limits_directory :
    let reporter := Reporter.observing (fun _ (heard : Unit) => heard) fun _ heard => heard
    let ended (pass : Pass) :=
      onDisk (pass.collectFiles reporter [sampleSingle]) () misplacedLogs
    (∃ output, (ended (sampleMachine 16)).result = .ok output ∧
        ∀ row ∈ output.rows, fitsInMemory numberSize row.speedup.perCore.length = true) ∧
      (ended (sampleMachine 1152921504606846976)).result = .error (.aborted .capacityOverflow) ∧
      2 ^ 60 ≤ (sampleMachine 1152921504606846976).config.collection.coreCount.toNat := by
  intro reporter ended
  have mem : sampleSingle ∈ [sampleSingle] := List.mem_singleton_self _
  obtain ⟨-, gives, -, large, fits, -⟩ := collectFiles_within_limits (sampleMachine 16)
    [sampleSingle] (fun _ heard => heard) (fun _ heard => heard) () misplacedLogs
  obtain ⟨output, done⟩ := gives.mpr fun path listed overflows =>
    absurd (large path listed overflows) (by decide)
  obtain ⟨-, gives, ends, large, -⟩ :=
    collectFiles_within_limits (sampleMachine 1152921504606846976) [sampleSingle]
      (fun _ heard => heard) (fun _ heard => heard) () misplacedLogs
  have overflows := @overflows_sample sampleSingle (by simp)
  refine ⟨⟨output, done, fits output done⟩, ?_, large _ mem overflows⟩
  cases result : (ended (sampleMachine 1152921504606846976)).result with
  | ok output => exact absurd overflows (gives.mp ⟨output, result⟩ _ mem)
  | error failure => rw [ends failure result]

/-- An accepted configuration of a vast machine and an accepted catalog end a pass over a missing
log of a rate run, and one over a directory in the place of a log. -/
theorem collectFiles_within_limits_vast :
    let pass := sampleMachine 1152921504606846976
    let reporter := Reporter.observing (fun _ (heard : Unit) => heard) fun _ heard => heard
    pass.config.problem? = none ∧ pass.catalog.problem? = none ∧
      misplacedLogs.read sampleRate = .error .notFound ∧
      misplacedLogs.read sampleSingle = .error .isADirectory ∧
      onDisk (pass.collectFiles reporter [sampleRate]) () misplacedLogs =
        ⟨.error (.aborted .capacityOverflow), (), misplacedLogs⟩ ∧
      onDisk (pass.collectFiles reporter [sampleSingle]) () misplacedLogs =
        ⟨.error (.aborted .capacityOverflow), (), misplacedLogs⟩ := by
  intro pass reporter
  have marked : ¬ Text.trim defaultFaultMarker.toList = [] := by decide
  have accepted : pass.config.problem? = none := by
    simp [Config.problem?, CollectionConfig.problem?, marked, pass, sampleMachine, Config.withCores]
  have ends : ∀ path ∈ [sampleRate, sampleSingle],
      onDisk (pass.collectFiles reporter [path]) () misplacedLogs =
        ⟨.error (.aborted .capacityOverflow), (), misplacedLogs⟩ := by
    intro path mem
    have early : pass.outcomes misplacedLogs [path] = .error .capacityOverflow :=
      outcomes_eq_error_iff_overflows.mpr
        ⟨rfl, path, List.mem_singleton_self _, overflows_sample mem⟩
    obtain ⟨heard, done⟩ := onDisk_collectFiles pass (fun _ (heard : Unit) => heard)
      (fun _ heard => heard) [path] () misplacedLogs
    rw [done, early]
    rfl
  exact ⟨accepted, Catalog.problem?_builtin, rfl, rfl, ends sampleRate (by simp),
    ends sampleSingle (by simp)⟩

end Pass

end SpeedupStudy
