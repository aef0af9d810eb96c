/-
# How a row scores its log

The names of runs, the catalog, the logs and the speedups count cores in one way. The row of a log
tells the run of its name, has one speedup for each core of the machine, and divides the rate of a
core by that of the very program which the run has there. A core without a program, or whose program
has no positive rate, counts as zero, and so do all cores of a run that reported no throughput.
-/

import SpeedupStudy.Proofs.Catalog.Resolve
import SpeedupStudy.Proofs.Collection.Rows
import SpeedupStudy.Proofs.Log.Fields
import SpeedupStudy.Proofs.Run.FileName
import SpeedupStudy.Proofs.Speedup

namespace SpeedupStudy

/-- Whether a log reports throughput: a positive rate on its last throughput line and some
instructions on its last total line. -/
def LogScan.Reported (log : Bytes) : Prop :=
  0.0 < lastIpc log ∧ 0 < lastTotal log

instance (log : Bytes) : Decidable (LogScan.Reported log) :=
  inferInstanceAs (Decidable (_ ∧ _))

namespace Pass

/-- How a row scores a log: by the run that the name tells, the fields of the log and the programs on
the cores of the machine. -/
structure Scores (pass : Pass) (path : Path) (log : Bytes) (row : Row) : Prop where
  named : Run.ofPath path = .ok row.run
  scenario : row.run.effectiveScenario = pass.config.collection.scenario
  cores : row.speedup.perCore.length = pass.config.collection.machine.coreCount
  status : row.speedup.status =
    if LogScan.hasFault pass.config.collection.faultMarker log then .faulted
    else if LogScan.Reported log then .valid else .crashed
  silent : ¬ LogScan.Reported log → ∀ x ∈ row.speedup.perCore, x = 0.0
  /-- A core with a program divides the instructions on the core line in its place by the cycles of the
  run, and that by the rate of the program. -/
  paired : LogScan.Reported log → ∀ core < pass.config.collection.machine.coreCount, ∀ solo,
    pass.catalog.soloIpcOn? row.run pass.config.collection.machine core = some solo → 0.0 < solo →
    row.speedup.perCore[core]? = some (((LogScan.coreCounts log)[core]?.getD 0).toFloat /
      ((LogScan.lastTotal log).toFloat / LogScan.lastIpc log) / solo)
  unpaired : ∀ core < pass.config.collection.machine.coreCount,
    (∀ solo, pass.catalog.soloIpcOn? row.run pass.config.collection.machine core = some solo →
      ¬ 0.0 < solo) →
    row.speedup.perCore[core]? = some 0.0
  /-- The catalog knows the rate of every program of the run. -/
  known : ∀ core < row.run.programCores pass.config.collection.machine, ∃ solo,
    pass.catalog.soloIpcOn? row.run pass.config.collection.machine core = some solo

variable {pass : Pass} {disk : Disk} {path : Path} {row : Row}

theorem completed_read_iff (reader : LogReader) (log : Bytes) :
    (reader.read log).completed = true ↔ LogScan.Reported log := by
  rw [LogReader.read_eq, RunLog.completed, Bool.and_eq_true, decide_eq_true_eq, decide_eq_true_eq,
    LogScan.Reported]

/-- The cycles of a log that reports throughput. -/
theorem cycles?_read (reader : LogReader) (log : Bytes) :
    (reader.read log).cycles? =
      if LogScan.Reported log then some ((LogScan.lastTotal log).toFloat / LogScan.lastIpc log)
      else none := by
  simp only [RunLog.cycles?, completed_read_iff]
  simp only [LogReader.read_eq]

/-- The speedups that a reader's log has against some solo rates, core by core. -/
theorem getElem?_perCore_read (reader : LogReader) (log : Bytes) (solo : List Float) {core : Nat}
    (onMachine : core < reader.coreCount) :
    (Speedup.ofLog (reader.read log) solo).perCore[core]? =
      some (if LogScan.Reported log then
        Speedup.ofCore ((LogScan.lastTotal log).toFloat / LogScan.lastIpc log)
          ((LogScan.coreCounts log)[core]?.getD 0) solo[core]?
      else 0.0) := by
  have count : (reader.read log).perCore[core]? =
      some ((LogScan.coreCounts log)[core]?.getD 0) := by
    rw [LogReader.read_eq]
    exact (getElem?_fitTo _ _ _).trans (if_pos onMachine)
  rw [Speedup.getElem?_perCore_ofLog, count, cycles?_read, Option.map_some]
  by_cases reported : LogScan.Reported log
  · simp only [if_pos reported]
  · simp only [if_neg reported]

/-- A file that a pass can score is scored by its log. -/
theorem Eligible.exists_scores (eligible : Eligible pass disk path row) :
    ∃ log, disk.read path = .ok log ∧ Scores pass path log row := by
  obtain ⟨solo, log, resolved, read, scored⟩ := eligible.scored
  have rates : ∀ core < pass.config.collection.machine.coreCount,
      solo[core]? = pass.catalog.soloIpcOn? row.run pass.config.collection.machine core :=
    fun core onMachine => Catalog.getElem?_of_soloIpcs resolved onMachine
  have entries : ∀ core < pass.config.collection.machine.coreCount, row.speedup.perCore[core]? =
      some (if LogScan.Reported log then
        Speedup.ofCore ((LogScan.lastTotal log).toFloat / LogScan.lastIpc log)
          ((LogScan.coreCounts log)[core]?.getD 0) solo[core]?
      else 0.0) := by
    intro core onMachine
    rw [scored]
    exact getElem?_perCore_read _ log solo onMachine
  have cores : row.speedup.perCore.length = pass.config.collection.machine.coreCount :=
    eligible.length_perCore
  refine ⟨log, read, eligible.named, eligible.scenario, cores, ?_, ?_, ?_, ?_, ?_⟩
  · have fault : (pass.config.collection.logReader.read log).fault =
        LogScan.hasFault pass.config.collection.faultMarker log := by
      rw [LogReader.read_eq]
      rfl
    rw [scored, Speedup.status_ofLog, fault]
    simp only [completed_read_iff]
  · intro silent x mem
    obtain ⟨core, listed, rfl⟩ := List.mem_iff_getElem.mp mem
    have entry := entries core (cores ▸ listed)
    rw [if_neg silent, List.getElem?_eq_getElem listed] at entry
    exact Option.some.inj entry
  · intro reported core onMachine solo' there positive
    rw [entries core onMachine, if_pos reported, rates core onMachine, there, Speedup.ofCore,
      if_pos positive]
  · intro core onMachine none
    rw [entries core onMachine, rates core onMachine]
    cases there : pass.catalog.soloIpcOn? row.run pass.config.collection.machine core with
    | none => simp [Speedup.ofCore]
    | some solo' => simp [Speedup.ofCore, none solo' there]
  · exact fun core programmed => Catalog.exists_soloIpcOn?_of_soloIpcs resolved programmed

/-- Every row that a pass gives is that of a listed file which the pass could read, and it scores the
log there. -/
theorem collectFiles_scores {σ : Type} (pass : Pass) (files : List Path)
    (onProgress : Progress → σ → σ) (onComplete : PassSummary → σ → σ) (state : σ) (disk : Disk)
    (output : Collection) (heard : σ) (after : Disk)
    (done : onDisk (pass.collectFiles (Reporter.observing onProgress onComplete) files) state disk =
      ⟨.ok output, heard, after⟩) :
    ∀ row ∈ output.rows, row.source ∈ files ∧
      ∃ log, disk.read row.source = .ok log ∧ Scores pass row.source log row := by
  obtain ⟨-, outcomes, found, rfl⟩ := results_of_onDisk_collectFiles done
  intro row mem
  obtain ⟨earlier, later, listed, eligible, -⟩ := exists_first_of_mem_rows found mem
  exact ⟨listed ▸ List.mem_append_right _ List.mem_cons_self, eligible.exists_scores⟩

/-- A pass over one file that it can score gives the row of that file. -/
theorem exists_collectFiles_singleton (eligible : Eligible pass disk path row)
    (fits : fitsInMemory numberSize pass.config.collection.coreCount.toNat = true) :
    ∃ output, onDisk (pass.collectFiles
        (Reporter.observing (fun _ (heard : Unit) => heard) fun _ heard => heard) [path]) () disk =
          ⟨.ok output, (), disk⟩ ∧ output.rows = [row] := by
  obtain ⟨output, heard, done⟩ := exists_onDisk_collectFiles pass
    (fun _ (heard : Unit) => heard) (fun _ heard => heard) [path] () disk fits
  obtain ⟨-, outcomes, found, rfl⟩ := results_of_onDisk_collectFiles done
  have sorted : sortedRows outcomes = [row] := by
    rw [sortedRows, rows_of_outcomes found, List.filterMap_cons,
      eligibleRow?_eq_some_iff.mpr eligible]
    exact List.mergeSort_singleton row
  exact ⟨_, done, by rw [rows_results, sorted]; rfl⟩

/-- In a malicious run of a mix the first core has the slot after those of the aggressors. -/
theorem collectFiles_scores_mix :
    let path := Path.ofString "malicious.para.512.mix.m.out"
    let log := Utf8.encode "  -- th[0] : retired 30 instrs, 0 branches
  -- total number of fetched instructions : 30 (IPC = 1.5)
"
    let catalog := ((Catalog.empty.withTrace "a" 1.0).withTrace "b" 2.0).withMix "m" ["a", "b"]
    let pass : Pass :=
      ⟨{ collection := { coreCount := 2, aggressorCores := 1, scenario := .malicious } }, catalog⟩
    let disk : Disk := ⟨.directory [(path.bytes, .file log)]⟩
    let reporter := Reporter.observing (fun _ (heard : Unit) => heard) fun _ heard => heard
    ∃ output row, onDisk (pass.collectFiles reporter [path]) () disk = ⟨.ok output, (), disk⟩ ∧
      row ∈ output.rows ∧ Scores pass path log row ∧
      pass.catalog.soloIpcOn? row.run pass.config.collection.machine 0 = some 2.0 := by
  intro path log catalog pass disk reporter
  have named : Run.ofPath path = .ok ⟨some .malicious, "para", "512", .mix, "mix.m"⟩ :=
    (Run.ofPath_eq_ofFileName "malicious.para.512.mix.m.out" (by decide +kernel)).trans rfl
  have resolved : pass.catalog.soloIpcs ⟨some .malicious, "para", "512", .mix, "mix.m"⟩
      pass.config.collection.machine = .ok [2.0] := by
    rfl
  have slot : pass.catalog.soloIpcOn? ⟨some .malicious, "para", "512", .mix, "mix.m"⟩
      pass.config.collection.machine 0 = some 2.0 := by
    rfl
  have read : disk.read path = .ok log := by
    rfl
  have eligible : Eligible pass disk path
      ⟨_, Speedup.ofLog (pass.config.collection.logReader.read log) [2.0], path⟩ :=
    ⟨named, rfl, rfl, [2.0], log, resolved, read, rfl⟩
  obtain ⟨output, done, rows⟩ := exists_collectFiles_singleton eligible (by decide)
  have mem := rows ▸ List.mem_singleton_self _
  obtain ⟨-, log', read', scores⟩ :=
    collectFiles_scores pass [path] _ _ () disk output () disk done _ mem
  cases read.symm.trans read'
  exact ⟨output, _, done, mem, scores, slot⟩

/-- A marker that goes over two lines is in the log but in none of its lines, and the empty marker is in
every log. Neither flags the run. -/
theorem collectFiles_scores_unflagged :
    let path := Path.ofString "baseline.single.429.mcf.out"
    let text := "oops\nagain\n"
    let pass (marker : String) : Pass :=
      ⟨{ collection := { faultMarker := marker } }, Catalog.empty.withTrace "429.mcf" 1.0⟩
    let disk : Disk := ⟨.directory [(path.bytes, .file (Utf8.encode text))]⟩
    let reporter := Reporter.observing (fun _ (heard : Unit) => heard) fun _ heard => heard
    let flagged (marker : String) (row : Row) :=
      row.speedup.status = .faulted ↔ Text.occursIn marker.toList text.toList = true
    (∃ output row, onDisk ((pass "oops\nagain").collectFiles reporter [path]) () disk =
        ⟨.ok output, (), disk⟩ ∧ row ∈ output.rows ∧ ¬ flagged "oops\nagain" row) ∧
      ∃ output row, onDisk ((pass "").collectFiles reporter [path]) () disk =
        ⟨.ok output, (), disk⟩ ∧ row ∈ output.rows ∧ ¬ flagged "" row := by
  intro path text pass disk reporter flagged
  have named : Run.ofPath path = .ok ⟨none, "baseline", "none", .single, "single.429.mcf"⟩ :=
    (Run.ofPath_eq_ofFileName "baseline.single.429.mcf.out" (by decide +kernel)).trans rfl
  have read : disk.read path = .ok (Utf8.encode text) := by
    rfl
  have fits : fitsInMemory numberSize (Config.collection {}).coreCount.toNat = true := by decide
  have unflagged : ∀ marker, LogScan.hasFault marker (Utf8.encode text) = false →
      Text.occursIn marker.toList text.toList = true →
      ∃ output row, onDisk ((pass marker).collectFiles reporter [path]) () disk =
        ⟨.ok output, (), disk⟩ ∧ row ∈ output.rows ∧ ¬ flagged marker row := by
    intro marker absent inside
    have resolved : (pass marker).catalog.soloIpcs
        ⟨none, "baseline", "none", .single, "single.429.mcf"⟩
        (pass marker).config.collection.machine = .ok [1.0] := by
      rfl
    have eligible : Eligible (pass marker) disk path ⟨_, Speedup.ofLog
        ((pass marker).config.collection.logReader.read (Utf8.encode text)) [1.0], path⟩ :=
      ⟨named, rfl, rfl, [1.0], Utf8.encode text, resolved, read, rfl⟩
    obtain ⟨output, done, rows⟩ := exists_collectFiles_singleton eligible fits
    obtain ⟨log, read', scores⟩ := eligible.exists_scores
    cases read.symm.trans read'
    refine ⟨output, _, done, rows ▸ List.mem_singleton_self _, fun flagged => ?_⟩
    have status := scores.status.symm.trans (flagged.mpr inside)
    rw [show LogScan.hasFault (pass marker).config.collection.faultMarker (Utf8.encode text) = false
      from absent] at status
    by_cases reported : LogScan.Reported (Utf8.encode text) <;> simp [reported] at status
  exact ⟨unflagged _ (by decide +kernel) (by decide), unflagged _ (by decide +kernel) (by decide)⟩

end Pass

end SpeedupStudy
