/-
# The turns of the workers do not matter

Between the steps of one worker those of any others may come. What a worker has read of the number
of finished files may be out of date when it reports it, but that number never goes down, and the
file in its own hands is not finished: so what it reports is at most the number of finished files
and less than the number of all files. What becomes of a file depends on this file alone, and the
results are assembled in the order of the list. A pass that comes to its end therefore has the
results of the pass that takes the files in turn, whatever the order of the steps.
-/

import SpeedupStudy.Collection.Workers
import SpeedupStudy.Proofs.Collection.Reordering

namespace SpeedupStudy

namespace Stage

/-- The most steps that are left for a file. -/
def left : Stage → Nat
  | waiting => 4
  | noted _ _ => 3
  | reported _ => 2
  | processed _ _ => 1
  | finished _ | aborted _ => 0

/-- Whether a stage fits what becomes of its file and the number of finished files. -/
def Fits (result : Except Abort Outcome) (counter : Nat) : Stage → Prop
  | noted _ completed => completed ≤ counter
  | processed _ outcome | finished outcome => result = .ok outcome
  | aborted event => result = .error event
  | waiting | reported _ => True

theorem Fits.mono {result : Except Abort Outcome} {counter counter' : Nat} {stage : Stage}
    (fits : stage.Fits result counter) (more : counter ≤ counter') :
    stage.Fits result counter' := by
  cases stage with
  | noted => exact Nat.le_trans fits more
  | _ => exact fits

end Stage

namespace Shift

/-- What becomes of a file. -/
def result (shift : Shift) (job : Job) : Except Abort Outcome :=
  shift.pass.outcome job.path (shift.disk.read job.path)

namespace State

/-- The most steps that are left for a pass. -/
def left (s : State) : Nat :=
  (s.jobs.map (·.stage.left)).sum + if s.output.isNone then 1 else 0

/-- The number of finished files. -/
def finished (s : State) : Nat :=
  s.jobs.countP (·.stage.isFinished)

/-- The files that the reporter has heard of, in the order of the list. -/
def reported (s : State) : List String :=
  (s.jobs.filter (·.stage.isReported)).map (·.path.display)

end State

variable {shift : Shift} {s s' : State} {steps : Nat}

/-! ## One step -/

namespace Step

variable (step : Step shift s s')

include step

theorem left_lt : s'.left < s.left := by
  cases step <;> simp [State.left, Stage.left]

theorem paths_eq : s'.jobs.map (·.path) = s.jobs.map (·.path) := by
  cases step <;> simp

theorem counter_le : s.counter ≤ s'.counter := by
  cases step <;> simp

/-- The shared number goes up with the number of finished files. -/
theorem counter_eq (counted : s.counter = s.finished) : s'.counter = s'.finished := by
  cases step <;> simp_all [State.finished, Stage.isFinished]
  omega

/-- The stage of each file still fits. What a worker has read is never more than the number of
finished files, as this does not go down. -/
theorem fits (fits : ∀ job ∈ s.jobs, job.stage.Fits (shift.result job) s.counter) :
    ∀ job ∈ s'.jobs, job.stage.Fits (shift.result job) s'.counter := by
  have more := step.counter_le
  cases step with
  | complete => exact fits
  | take | report | process found | abort found | finish =>
      simp only [List.forall_mem_append, List.forall_mem_cons] at fits more ⊢
      obtain ⟨before, here, after⟩ := fits
      refine ⟨fun job mem => (before job mem).mono more, ?_,
        fun job mem => (after job mem).mono more⟩
      first | exact trivial | exact Nat.le_refl _ | exact found | exact here

end Step

/-! ## What holds all along -/

/-- Whether the reporter has heard these reports, one for each reported file, and then, if the pass
has ended, of its summary. -/
structure Heard (shift : Shift) (s : State) (reports : List Progress) : Prop where
  heard : s.heard =
    reports.map .progress ++ (s.output.map fun output => .complete output.summary).toList
  files : (reports.map (·.file)).Perm s.reported
  below : ∀ report ∈ reports, report.completed < report.total ∧ report.total = shift.files.length

/-- What holds in every state that a pass can be in. -/
structure Consistent (shift : Shift) (s : State) : Prop where
  paths : s.jobs.map (·.path) = shift.files
  counter : s.counter = s.finished
  fits : ∀ job ∈ s.jobs, job.stage.Fits (shift.result job) s.counter
  reports : ∃ reports, Heard shift s reports
  output : ∀ output ∈ s.output, ∃ outcomes elapsedMs timestamp,
    s.jobs.map (·.stage) = outcomes.map .finished ∧
      output = shift.gather outcomes elapsedMs timestamp

theorem consistent_start (shift : Shift) : Consistent shift shift.start where
  paths := by simp [start, Function.comp_def]
  counter := by
    have waiting : ∀ job ∈ shift.start.jobs, ¬ job.stage.isFinished = true := by
      simp [start, Stage.isFinished]
    exact (List.countP_eq_zero.mpr waiting).symm
  fits := by simp [start, Stage.Fits]
  reports := ⟨[], rfl, by simp [start, State.reported, Stage.isReported, List.filter_map], nofun⟩
  output := nofun

section Consistency

variable (consistent : Consistent shift s)

include consistent

theorem Consistent.length_jobs : s.jobs.length = shift.files.length := by
  rw [← consistent.paths, List.length_map]

/-- A file that is not finished keeps the number of finished files below that of all files. -/
theorem Consistent.counter_lt {job : Job} (listed : job ∈ s.jobs)
    (unfinished : job.stage.isFinished = false) : s.counter < shift.files.length := by
  rw [consistent.counter, ← consistent.length_jobs]
  refine List.countP_lt_length_iff.mpr ⟨job, listed, by simp [unfinished]⟩

/-- What is reported in a step is at most the number of finished files then, and less than the
number of all files. -/
theorem Consistent.report_le (step : Step shift s s') {report : Progress}
    (reported : s'.heard = s.heard ++ [.progress report]) :
    report.completed ≤ s.counter ∧ report.completed < report.total ∧
      report.total = shift.files.length := by
  cases step with
  | @report before after path counter worker completed heard =>
      obtain rfl : ⟨path.display, completed, shift.files.length⟩ = report := by simpa using reported
      have listed : (⟨path, .noted worker completed⟩ : Job) ∈
          before ++ ⟨path, .noted worker completed⟩ :: after := by simp
      have atMost : completed ≤ counter := consistent.fits _ listed
      exact ⟨atMost, Nat.lt_of_le_of_lt atMost (consistent.counter_lt listed rfl), rfl⟩
  | _ => simp at reported

/-- The reporter hears of a file when it is reported, and of the summary at the end. -/
theorem Consistent.heard (step : Step shift s s') : ∃ reports, Heard shift s' reports := by
  obtain ⟨reports, heard, files, below⟩ := consistent.reports
  cases step with
  | @report before after path counter worker completed heard =>
      have last := (consistent.report_le .report rfl).2
      refine ⟨reports ++ [⟨path.display, completed, shift.files.length⟩], ?_, ?_, ?_⟩
      · simp_all
      · rw [List.map_append, List.map_singleton]
        simp only [State.reported, List.filter_append, List.filter_cons, Stage.isReported,
          List.map_append, if_true, Bool.false_eq_true, if_false, List.map_cons] at files ⊢
        exact (List.perm_append_singleton _ _).trans ((files.cons _).trans List.perm_middle.symm)
      · intro report mem
        rcases List.mem_append.mp mem with mem | mem
        · exact below report mem
        · rw [List.mem_singleton.mp mem]
          exact last
  | take | process found | abort found | finish =>
      refine ⟨reports, heard, ?_, below⟩
      simpa [State.reported, Stage.isReported] using files
  | complete =>
      refine ⟨reports, ?_, files, below⟩
      simp_all

theorem Consistent.step (step : Step shift s s') : Consistent shift s' where
  paths := step.paths_eq.trans consistent.paths
  counter := step.counter_eq consistent.counter
  fits := step.fits consistent.fits
  reports := consistent.heard step
  output := by
    intro output given
    cases step with
    | @complete jobs counter heard outcomes elapsedMs timestamp finished =>
        exact ⟨outcomes, elapsedMs, timestamp, finished, (Option.some.inj given).symm⟩
    | _ => cases given

end Consistency

theorem Reaches.consistent (reached : Reaches shift steps s) : Consistent shift s := by
  induction reached with
  | start => exact consistent_start shift
  | step _ step ih => exact ih.step step

theorem left_start (shift : Shift) : shift.start.left = 4 * shift.files.length + 1 := by
  simp [start, State.left, Stage.left, Function.comp_def, Nat.mul_comm]

/-- Every file needs at most four steps, and the end of the pass one. -/
theorem Reaches.steps_le (reached : Reaches shift steps s) :
    steps + s.left ≤ 4 * shift.files.length + 1 := by
  induction reached with
  | start => rw [left_start, Nat.zero_add]
  | step _ step ih =>
      have fewer := step.left_lt
      omega

/-! ## The end of a pass -/

/-- Whether a pass can go on no further. -/
def Halted (shift : Shift) (s : State) : Prop :=
  ∀ s', ¬ Step shift s s'

theorem halted_of_output {output : Collection} (given : s.output = some output) :
    Halted shift s := by
  intro s' step
  cases step <;> cases given

theorem exists_outcomes {jobs : List Job}
    (finished : ∀ job ∈ jobs, ∃ outcome, job.stage = .finished outcome) :
    ∃ outcomes : List Outcome, jobs.map (·.stage) = outcomes.map .finished := by
  induction jobs with
  | nil => exact ⟨[], rfl⟩
  | cons job rest ih =>
      rw [List.forall_mem_cons] at finished
      obtain ⟨outcome, here⟩ := finished.1
      obtain ⟨outcomes, later⟩ := ih finished.2
      exact ⟨outcome :: outcomes, by rw [List.map_cons, here, later, List.map_cons]⟩

/-- No worker holds a file at a halt, as it could go on with it. -/
theorem Halted.worker?_eq_none (halted : Halted shift s) (running : s.output = none) {job : Job}
    (listed : job ∈ s.jobs) : job.stage.worker? = none := by
  obtain ⟨jobs, counter, heard, output⟩ := s
  obtain rfl : output = none := running
  obtain ⟨before, after, rfl⟩ := List.append_of_mem listed
  obtain ⟨path, stage⟩ := job
  cases stage with
  | noted => exact absurd .report (halted _)
  | reported =>
      cases found : shift.pass.outcome path (shift.disk.read path) with
      | ok outcome => exact absurd (.process found) (halted _)
      | error event => exact absurd (.abort found) (halted _)
  | processed => exact absurd .finish (halted _)
  | waiting | finished | aborted => rfl

/-- At a halt the pass has ended, or a file has ended it early. -/
theorem Halted.ended (halted : Halted shift s) :
    (∃ output, s.output = some output) ∨ ∃ job ∈ s.jobs, ∃ event, job.stage = .aborted event := by
  cases running : s.output with
  | some output => exact .inl ⟨output, rfl⟩
  | none =>
      right
      by_contra unaborted
      have unheld : ∀ job ∈ s.jobs, job.stage.worker? = none :=
        fun _ listed => halted.worker?_eq_none running listed
      obtain ⟨jobs, counter, heard, output⟩ := s
      obtain rfl : output = none := running
      have finished : ∀ job ∈ jobs, ∃ outcome, job.stage = .finished outcome := by
        intro job listed
        have free := unheld job listed
        cases stage : job.stage with
        | finished outcome => exact ⟨outcome, rfl⟩
        | aborted event => exact absurd ⟨job, listed, event, stage⟩ unaborted
        | noted | reported | processed => rw [stage] at free; cases free
        | waiting =>
            -- The first worker is idle, so it can take the file.
            obtain ⟨before, after, rfl⟩ := List.append_of_mem listed
            obtain ⟨path, _⟩ := job
            cases stage
            refine absurd (.take shift.staffed ?_) (halted _)
            intro job listed
            have free : job.stage.worker? = none := unheld job (by simp at listed ⊢; tauto)
            rw [free]
            exact nofun
      obtain ⟨outcomes, stages⟩ := exists_outcomes finished
      exact halted _ (@Step.complete shift jobs counter heard outcomes 0 "" stages)

/-! ## Taking the files in turn -/

/-- A reporter that keeps what it hears. -/
def noting : Reporter (StateT (List Notice) DiskM) :=
  Reporter.observing (fun report heard => heard ++ [Notice.progress report])
    fun summary heard => heard ++ [.complete summary]

/-- The pass that takes the files in turn. -/
def inTurn (shift : Shift) : Ended Failure (List Notice) Collection :=
  onDisk (shift.pass.collectFiles noting shift.files) [] shift.disk

theorem result_inTurn (shift : Shift) : shift.inTurn.result =
    ((shift.pass.outcomes shift.disk shift.files).map shift.pass.results).mapError .aborted := by
  obtain ⟨heard, done⟩ := shift.pass.onDisk_collectFiles
    (fun report heard => heard ++ [Notice.progress report])
    (fun summary heard => heard ++ [Notice.complete summary]) shift.files [] shift.disk
  rw [inTurn, noting, done]

/-- What the reporter hears of files that are taken in turn, after some others. -/
def reportsInTurn (total completed : Nat) : List Path → List Notice
  | [] => []
  | path :: rest =>
    .progress ⟨path.display, completed, total⟩ :: reportsInTurn total (completed + 1) rest

theorem onDisk_processAll_noting (pass : Pass) (total : Nat) {files : List Path} {disk : Disk}
    {outcomes : List Outcome} (found : pass.outcomes disk files = .ok outcomes) (completed : Nat)
    (heard : List Notice) :
    onDisk (pass.processAll noting total completed files) heard disk =
      ⟨.ok outcomes, heard ++ reportsInTurn total completed files, disk⟩ := by
  induction files generalizing completed heard outcomes with
  | nil =>
      cases found
      rw [reportsInTurn, List.append_nil]
      rfl
  | cons path rest ih =>
      have report : onDisk (ExceptT.lift (noting.onProgress ⟨path.display, completed, total⟩) :
          Attempt (StateT (List Notice) DiskM) Unit) heard disk =
            ⟨.ok (), heard ++ [.progress ⟨path.display, completed, total⟩], disk⟩ := rfl
      rw [Pass.outcomes] at found
      rw [Pass.processAll, onDisk_bind, report, Ended.andThen_ok, onDisk_bind, Pass.onDisk_process]
      cases first : pass.outcome path (disk.read path) with
      | error event => simp [first] at found
      | ok outcome =>
          cases later : pass.outcomes disk rest with
          | error event => simp [first, later, Except.map] at found
          | ok others =>
              simp only [first, later, Except.map, Except.ok.injEq] at found
              simp only [Except.mapError, Ended.andThen_ok, onDisk_bind, ih later, onDisk_pure]
              simp [found, reportsInTurn]

/-- Finished files have the outcomes that they have in turn. -/
theorem outcomes_of_finished {jobs : List Job} {counter : Nat} {outcomes : List Outcome}
    (fits : ∀ job ∈ jobs, job.stage.Fits (shift.result job) counter)
    (finished : jobs.map (·.stage) = outcomes.map .finished) :
    shift.pass.outcomes shift.disk (jobs.map (·.path)) = .ok outcomes := by
  induction jobs generalizing outcomes with
  | nil =>
      obtain rfl : outcomes = [] := by simpa using finished.symm
      rfl
  | cons job rest ih =>
      cases outcomes with
      | nil => cases finished
      | cons outcome others =>
          rw [List.map_cons, List.map_cons, List.cons.injEq] at finished
          rw [List.forall_mem_cons, finished.1] at fits
          have found : shift.pass.outcome job.path (shift.disk.read job.path) = .ok outcome :=
            fits.1
          simp only [List.map_cons, Pass.outcomes, found, ih fits.2 finished.2, Except.map]

/-- An event that ends a pass ends it in turn, too. -/
theorem Consistent.outcomes_of_aborted (consistent : Consistent shift s) {job : Job} {event : Abort}
    (listed : job ∈ s.jobs) (aborted : job.stage = .aborted event) :
    shift.pass.outcomes shift.disk shift.files = .error event := by
  have found : shift.pass.outcome job.path (shift.disk.read job.path) = .error event := by
    have fits := consistent.fits job listed
    rwa [aborted] at fits
  have judged := shift.pass.judged_outcome job.path (shift.disk.read job.path)
  rw [found] at judged
  refine Pass.outcomes_eq_error_iff.mpr ⟨by cases judged <;> rfl, job.path, ?_, ?_⟩
  · rw [← consistent.paths]
    exact List.mem_map_of_mem listed
  · rw [Pass.outcome?, found]
    rfl

/-- Whether a pass has ended with some results, up to those of its host: all files are finished, and
the reporter has heard of each of them once and then of the summary. -/
def EndedWith (shift : Shift) (s : State) (listed : Collection) : Prop :=
  ∃ (reports : List Progress) (elapsedMs : Nat) (timestamp : String),
    let summary := { listed.summary with threads := shift.threads, elapsedMs, timestamp }
    s.output = some { listed with summary } ∧ s.counter = shift.files.length ∧
      s.heard = reports.map .progress ++ [.complete summary] ∧
      (reports.map (·.file)).Perm (shift.files.map Path.display) ∧
      ∀ report ∈ reports, report.completed < report.total ∧ report.total = shift.files.length

/-- A pass that has ended has the results of the pass that takes the files in turn. -/
theorem Consistent.endedWith (consistent : Consistent shift s) {output : Collection}
    (given : s.output = some output) :
    ∃ listed, shift.inTurn.result = .ok listed ∧ EndedWith shift s listed := by
  obtain ⟨outcomes, elapsedMs, timestamp, stages, rfl⟩ := consistent.output output given
  obtain ⟨reports, heard, files, below⟩ := consistent.reports
  have found := outcomes_of_finished consistent.fits stages
  rw [consistent.paths] at found
  have finished : ∀ job ∈ s.jobs, ∃ outcome, job.stage = .finished outcome := by
    intro job listed
    obtain ⟨outcome, -, same⟩ := List.mem_map.mp (stages ▸ List.mem_map_of_mem listed)
    exact ⟨outcome, same.symm⟩
  refine ⟨shift.pass.results outcomes, ?_, reports, elapsedMs, timestamp, given, ?_, ?_, ?_, below⟩
  · rw [result_inTurn, found]
    rfl
  · rw [consistent.counter, ← consistent.length_jobs]
    refine List.countP_eq_length.mpr fun job listed => ?_
    obtain ⟨outcome, stage⟩ := finished job listed
    rw [stage]
    rfl
  · rw [heard, given]
    rfl
  · have everyone : s.jobs.filter (·.stage.isReported) = s.jobs := by
      refine List.filter_eq_self.mpr fun job listed => ?_
      obtain ⟨outcome, stage⟩ := finished job listed
      rw [stage]
      rfl
    have names : s.jobs.map (·.path.display) = shift.files.map Path.display := by
      rw [← consistent.paths, List.map_map]
      rfl
    rwa [State.reported, everyone, names] at files

/-- Whether the turns of the workers of a pass make no difference. -/
structure IndependentOfTurns (shift : Shift) : Prop where
  /-- What is reported is at most the number of finished files at that moment, and the next number
  is at most that of all files. -/
  report : ∀ steps s s' report, Reaches shift steps s → Step shift s s' →
    s'.heard = s.heard ++ [.progress report] →
      report.completed ≤ s.finished ∧ report.completed + 1 ≤ report.total ∧
        report.total = shift.files.length
  /-- The shared number is that of the finished files. -/
  counter : ∀ steps s, Reaches shift steps s → s.counter = s.finished
  steps_le : ∀ steps s, Reaches shift steps s → steps ≤ 4 * shift.files.length + 1
  endedWith : ∀ steps s listed, Reaches shift steps s → Halted shift s →
    shift.inTurn.result = .ok listed → EndedWith shift s listed
  /-- Where the files taken in turn end the pass early, they do so in any order: there are no
  results and no summary, and a halt is by the same event. -/
  aborted : ∀ steps s failure, Reaches shift steps s → shift.inTurn.result = .error failure →
    s.output = none ∧ (∀ summary, .complete summary ∉ s.heard) ∧
      (Halted shift s → ∃ job ∈ s.jobs, ∃ event,
        job.stage = .aborted event ∧ failure = .aborted event)

/-- A pass does the same however its workers take turns, and however many there are. It always comes
to a halt. It makes one report of each file, with at most as many finished files as there are then
and fewer than there are files, so that counting from one never goes beyond the last. When it halts,
all files are counted, the reporter has heard of the summary after all reports and only once, and
the results are those of the pass that takes the files in turn, but for the threads and the time.
Only where a machine has more cores than memory can list may a file end the pass early, and then it
also ends the pass that takes the files in turn. -/
theorem independentOfTurns (shift : Shift) : IndependentOfTurns shift where
  report steps s s' report reached step reported := by
    have consistent := reached.consistent
    rw [← consistent.counter]
    exact consistent.report_le step reported
  counter steps s reached := reached.consistent.counter
  steps_le steps s reached := Nat.le_of_add_right_le reached.steps_le
  endedWith steps s listed reached halted given := by
    have consistent := reached.consistent
    rcases halted.ended with ⟨output, ended⟩ | ⟨job, mem, event, aborted⟩
    · obtain ⟨listed', given', endedWith⟩ := consistent.endedWith ended
      obtain rfl : listed = listed' := Except.ok.inj (given.symm.trans given')
      exact endedWith
    · rw [result_inTurn, consistent.outcomes_of_aborted mem aborted] at given
      cases given
  aborted steps s failure reached failed := by
    have consistent := reached.consistent
    have running : s.output = none := by
      cases ended : s.output with
      | none => rfl
      | some output =>
          obtain ⟨listed, given, -⟩ := consistent.endedWith ended
          cases given.symm.trans failed
    refine ⟨running, ?_, ?_⟩
    · obtain ⟨reports, heard, -, -⟩ := consistent.reports
      simp [heard, running]
    · intro halted
      rcases halted.ended with ⟨output, ended⟩ | ⟨job, mem, event, aborted⟩
      · cases ended.symm.trans running
      · rw [result_inTurn, consistent.outcomes_of_aborted mem aborted] at failed
        exact ⟨job, mem, event, aborted, (Except.error.inj failed).symm⟩

/-- Two workers can both start before either has finished a file, and the second one can be the
first to report and to finish. Neither report counts the file of the other worker then. -/
theorem reaches_crossed {first second : Path} (files : shift.files = [first, second])
    (several : 1 < shift.workers) {outcome outcome' : Outcome}
    (found : shift.pass.outcome first (shift.disk.read first) = .ok outcome)
    (found' : shift.pass.outcome second (shift.disk.read second) = .ok outcome') :
    Reaches shift 8 ⟨[⟨first, .finished outcome⟩, ⟨second, .finished outcome'⟩], 2,
      [.progress ⟨second.display, 0, 2⟩, .progress ⟨first.display, 0, 2⟩], none⟩ := by
  have waiting : shift.start = ⟨[⟨first, .waiting⟩, ⟨second, .waiting⟩], 0, [], none⟩ := by
    rw [Shift.start, files]
    rfl
  have total : shift.files.length = 2 := by
    rw [files]
    rfl
  have begun : Reaches shift 0 shift.start := .start
  rw [waiting] at begun
  -- The primed steps are those of the second worker, which starts later and overtakes the first.
  have taken := begun.step (@Step.take shift [] [⟨second, .waiting⟩] first 0 0 [] shift.staffed
    (by simp [Stage.worker?]))
  have taken' := taken.step (@Step.take shift [⟨first, .noted 0 0⟩] [] second 0 1 [] several
    (by simp [Stage.worker?]))
  have reported' := taken'.step (@Step.report shift [⟨first, .noted 0 0⟩] [] second 0 1 0 [])
  have reported := reported'.step (@Step.report shift [] [⟨second, .reported 1⟩] first 0 0 0 _)
  have processed := reported.step
    (@Step.process shift [] [⟨second, .reported 1⟩] first 0 0 _ outcome found)
  have processed' := processed.step
    (@Step.process shift [⟨first, .processed 0 outcome⟩] [] second 0 1 _ outcome' found')
  have finished' := processed'.step
    (@Step.finish shift [⟨first, .processed 0 outcome⟩] [] second 0 1 _ outcome')
  have finished := finished'.step
    (@Step.finish shift [] [⟨second, .finished outcome'⟩] first 1 0 _ outcome)
  rw [total] at finished
  exact finished

/-- Two workers on a log and a file that names no run. -/
def crew : Shift where
  pass := ⟨{}, Catalog.empty.withTrace "429.mcf" 1.0⟩
  disk := ⟨.directory [(Utf8.encode "baseline.single.429.mcf.out", .file [])]⟩
  files := [Path.ofString "baseline.single.429.mcf.out", Path.ofString "notes"]
  workers := 2
  staffed := Nat.two_pos

/-- Two workers whose steps cross come to the results of the files taken in turn. Both have reported
that no file is finished. -/
theorem independentOfTurns_crew :
    ∃ s listed, Reaches crew 9 s ∧ Halted crew s ∧
      s.heard.take 2 = [.progress ⟨"notes", 0, 2⟩,
        .progress ⟨"baseline.single.429.mcf.out", 0, 2⟩] ∧
      crew.inTurn.result = .ok listed ∧ EndedWith crew s listed := by
  have fits : fitsInMemory numberSize crew.pass.config.collection.coreCount.toNat = true := by
    decide
  obtain ⟨outcome, found⟩ :=
    Pass.outcome_of_fitsInMemory (Path.ofString "baseline.single.429.mcf.out") _ fits
  obtain ⟨outcome', found'⟩ := Pass.outcome_of_fitsInMemory (Path.ofString "notes") _ fits
  have crossed := @reaches_crossed crew _ _ rfl Nat.one_lt_two _ _ found found'
  have ended := crossed.step (@Step.complete crew _ 2 _ [outcome, outcome'] 0 "" rfl)
  have listed : crew.inTurn.result = .ok (crew.pass.results [outcome, outcome']) := by
    have outcomes : crew.pass.outcomes crew.disk crew.files = .ok [outcome, outcome'] := by
      simp only [crew] at found found' ⊢
      simp only [Pass.outcomes, found, found', Except.map]
    rw [result_inTurn, outcomes]
    rfl
  refine ⟨_, _, ended, halted_of_output rfl, ?_, listed,
    (independentOfTurns crew).endedWith 9 _ _ ended (halted_of_output rfl) listed⟩
  have notes : (Path.ofString "notes").display = "notes" := by decide +kernel
  have log : (Path.ofString "baseline.single.429.mcf.out").display =
      "baseline.single.429.mcf.out" := by
    decide +kernel
  rw [notes, log]
  rfl

/-! ## Turns of one worker -/

theorem inTurn_eq {outcomes : List Outcome}
    (found : shift.pass.outcomes shift.disk shift.files = .ok outcomes) :
    shift.inTurn = ⟨.ok (shift.pass.results outcomes),
      reportsInTurn shift.files.length 0 shift.files ++
        [.complete (shift.pass.results outcomes).summary], shift.disk⟩ := by
  have processed := onDisk_processAll_noting shift.pass shift.files.length found 0 []
  cases setting : shift.pass.config.execution.threads <;>
    simp only [inTurn, Pass.collectFiles, setting, onDisk_bind, noting, Pass.onDisk_milliseconds,
      Pass.onDisk_defaultThreads, onDisk_pure, Ended.andThen_ok] at processed ⊢ <;>
    rw [processed, Pass.results, setting] <;> rfl

/-- Files that are finished with these outcomes. -/
def finishedJobs (files : List Path) (outcomes : List Outcome) : List Job :=
  List.zipWith (fun path outcome => ⟨path, .finished outcome⟩) files outcomes

theorem exists_finished_of_mem {files : List Path} {outcomes : List Outcome} {job : Job}
    (listed : job ∈ finishedJobs files outcomes) : ∃ outcome, job.stage = .finished outcome := by
  rw [finishedJobs, ← List.map_uncurry_zip_eq_zipWith] at listed
  obtain ⟨⟨path, outcome⟩, -, rfl⟩ := List.mem_map.mp listed
  exact ⟨outcome, rfl⟩

/-- The first worker can take the files that are left in turn and finish each of them. -/
theorem Reaches.inTurn {finished : List Job} {counter : Nat} {heard : List Notice}
    (free : ∀ job ∈ finished, job.stage.worker? = none) {rest : List Path}
    {outcomes : List Outcome} (found : shift.pass.outcomes shift.disk rest = .ok outcomes)
    (reached : Reaches shift steps
      ⟨finished ++ rest.map (⟨·, .waiting⟩), counter, heard, none⟩) :
    Reaches shift (steps + 4 * rest.length)
      ⟨finished ++ finishedJobs rest outcomes, counter + rest.length,
        heard ++ reportsInTurn shift.files.length counter rest, none⟩ := by
  induction rest generalizing finished counter heard outcomes steps with
  | nil => simpa [reportsInTurn, finishedJobs] using reached
  | cons path rest ih =>
      rw [Pass.outcomes] at found
      cases first : shift.pass.outcome path (shift.disk.read path) with
      | error event => simp [first] at found
      | ok outcome =>
          cases later : shift.pass.outcomes shift.disk rest with
          | error event => simp [first, later, Except.map] at found
          | ok others =>
              simp only [first, later, Except.map, Except.ok.injEq] at found
              have idle : ∀ job ∈ finished ++ rest.map (⟨·, .waiting⟩),
                  job.stage.worker? ≠ some 0 := by
                intro job mem
                rcases List.mem_append.mp mem with mem | mem
                · rw [free job mem]
                  exact (Option.some_ne_none 0).symm
                · obtain ⟨path, -, rfl⟩ := List.mem_map.mp mem
                  exact (Option.some_ne_none 0).symm
              have taken := reached.step (.take shift.staffed idle)
              have processed := (taken.step .report).step (.process first)
              have ended := processed.step .finish
              have free' : ∀ job ∈ finished ++ [⟨path, .finished outcome⟩],
                  job.stage.worker? = none := by
                simp only [List.forall_mem_append, List.forall_mem_singleton]
                exact ⟨free, rfl⟩
              have onward := ih free' later (by simpa using ended)
              have steps_eq : steps + 1 + 1 + 1 + 1 + 4 * rest.length =
                  steps + 4 * (path :: rest).length := by
                rw [List.length_cons]
                omega
              have counter_eq : counter + 1 + rest.length = counter + (path :: rest).length := by
                rw [List.length_cons]
                omega
              rw [steps_eq, counter_eq] at onward
              simpa [← found, reportsInTurn, finishedJobs] using onward

/-- Taking the files in turn is one of the ways in which a pass can come to its end. The reporter
hears the same then, but for the threads and the time in the summary. -/
theorem exists_reaches_inTurn {listed : Collection} (given : shift.inTurn.result = .ok listed) :
    ∃ s reports summary, Reaches shift (4 * shift.files.length + 1) s ∧ Halted shift s ∧
      shift.inTurn.state = reports ++ [.complete listed.summary] ∧
      s.heard = reports ++ [.complete summary] := by
  rw [result_inTurn] at given
  cases found : shift.pass.outcomes shift.disk shift.files with
  | error event => rw [found] at given; cases given
  | ok outcomes =>
      rw [found] at given
      obtain rfl : shift.pass.results outcomes = listed := Except.ok.inj given
      have free : ∀ job ∈ ([] : List Job), job.stage.worker? = none := nofun
      have reached := Reaches.inTurn free found Reaches.start
      obtain ⟨_, stages⟩ := exists_outcomes fun _ listed => exists_finished_of_mem listed
      have ended := reached.step (@Step.complete shift _ _ _ _ 0 "" stages)
      rw [Nat.zero_add] at ended
      exact ⟨_, _, _, ended, halted_of_output rfl, congrArg Ended.state (inTurn_eq found), rfl⟩

end Shift

end SpeedupStudy
