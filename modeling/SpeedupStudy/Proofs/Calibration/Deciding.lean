/-
# Which log decides a trace

Measuring takes the logs of solo runs in order, and the first log of a trace that can be read
decides the trace. What the calibration holds in the end is told by the deciding logs alone: a rate
where the last throughput line has a positive one, and a crash elsewhere. A pass also wants a total
before it takes a run for completed, so the two disagree about a log that has a rate but no total.
-/

import SpeedupStudy.Proofs.Calibration
import SpeedupStudy.Proofs.Collection.Scores

namespace SpeedupStudy

namespace Calibration

/-- The log of a solo run of a trace, if a path is one that can be read. -/
def soloLog? (disk : Disk) (trace : String) (path : Path) : Option (Path × Bytes) :=
  if soloTrace? path = some trace then (disk.read path).toOption.map (path, ·) else none

/-- The log that decides a trace: the first one of its solo runs that can be read. -/
def decidingLog? (disk : Disk) (files : List Path) (trace : String) : Option (Path × Bytes) :=
  files.findSome? (soloLog? disk trace)

/-- The rate that a log measures, if it reports a positive one. -/
def measuredRate? (log : Bytes) : Option Float :=
  if 0.0 < LogScan.lastIpc log then some (LogScan.lastIpc log) else none

theorem soloLog?_eq_some_iff {disk : Disk} {trace : String} {path path' : Path} {log : Bytes} :
    soloLog? disk trace path = some (path', log) ↔
      soloTrace? path = some trace ∧ disk.read path = .ok log ∧ path' = path := by
  rw [soloLog?]
  cases disk.read path <;> simp [Except.toOption, eq_comm, and_comm]

/-- The deciding log of a trace is read from one of the files, and no file before it is a log of the
trace that can be read. -/
theorem decidingLog?_eq_some_iff {disk : Disk} {files : List Path} {trace : String} {path : Path}
    {log : Bytes} :
    decidingLog? disk files trace = some (path, log) ↔
      ∃ earlier later, files = earlier ++ path :: later ∧ soloTrace? path = some trace ∧
        disk.read path = .ok log ∧
        ∀ other ∈ earlier, soloTrace? other = some trace → ∀ text, disk.read other ≠ .ok text := by
  have passed : ∀ other, soloLog? disk trace other = none ↔
      (soloTrace? other = some trace → ∀ text, disk.read other ≠ .ok text) := by
    intro other
    constructor
    · intro nothing solo text read
      have given := soloLog?_eq_some_iff.mpr ⟨solo, read, rfl⟩
      rw [nothing] at given
      cases given
    · intro unread
      cases given : soloLog? disk trace other with
      | none => rfl
      | some found =>
          obtain ⟨solo, read, -⟩ := soloLog?_eq_some_iff.mp given
          exact absurd read (unread solo found.2)
  rw [decidingLog?, List.findSome?_eq_some_iff]
  constructor
  · rintro ⟨earlier, file, later, rfl, given, before⟩
    obtain ⟨solo, read, rfl⟩ := soloLog?_eq_some_iff.mp given
    exact ⟨earlier, later, rfl, solo, read, fun other mem => (passed other).mp (before other mem)⟩
  · rintro ⟨earlier, later, rfl, solo, read, before⟩
    exact ⟨earlier, path, later, rfl, soloLog?_eq_some_iff.mpr ⟨solo, read, rfl⟩,
      fun other mem => (passed other).mpr (before other mem)⟩

/-- A calibration has decided the traces that have a deciding log, each by that log. -/
structure DecidedBy (c : Calibration) (deciding : String → Option (Path × Bytes)) : Prop where
  rates : ∀ trace, c.ipcs.get? trace = (deciding trace).bind fun found => measuredRate? found.2
  crashed : ∀ trace, trace ∈ c.crashed ↔
    ∃ found, deciding trace = some found ∧ measuredRate? found.2 = none

theorem decidedBy_empty (disk : Disk) : DecidedBy {} (decidingLog? disk []) :=
  ⟨fun _ => rfl, fun _ => by simp [decidingLog?]⟩

theorem DecidedBy.decides_iff {c : Calibration} {deciding : String → Option (Path × Bytes)}
    (decided : DecidedBy c deciding) (trace : String) :
    c.decides trace = true ↔ (deciding trace).isSome := by
  have rate := decided.rates trace
  have crashed := decided.crashed trace
  rw [decides, Bool.or_eq_true, NameMap.contains, rate, List.contains_iff_mem, crashed]
  cases deciding trace with
  | none => simp
  | some found => cases measured : measuredRate? found.2 <;> simp [measured]

variable {reader : LogReader} {disk : Disk}

theorem decidingLog?_append_singleton (files : List Path) (path : Path) (trace : String) :
    decidingLog? disk (files ++ [path]) trace =
      (decidingLog? disk files trace).or (soloLog? disk trace path) := by
  simp [decidingLog?, List.findSome?_append]

/-- A file that adds no deciding log leaves a calibration decided that keeps its traces. -/
theorem DecidedBy.of_same {c c' : Calibration} {files : List Path} {path : Path}
    (decided : DecidedBy c (decidingLog? disk files)) (ipcs : c'.ipcs = c.ipcs)
    (crashed : c'.crashed = c.crashed)
    (nothing : ∀ trace, (decidingLog? disk files trace).isSome ∨ soloLog? disk trace path = none) :
    DecidedBy c' (decidingLog? disk (files ++ [path])) := by
  have same : decidingLog? disk (files ++ [path]) = decidingLog? disk files := by
    funext trace
    rw [decidingLog?_append_singleton]
    rcases nothing trace with known | nothing
    · obtain ⟨found, known⟩ := Option.isSome_iff_exists.mp known
      rw [known, Option.some_or]
    · rw [nothing, Option.or_none]
  rw [same]
  exact ⟨fun trace => ipcs ▸ decided.rates trace, fun trace => crashed ▸ decided.crashed trace⟩

/-- A log of a trace that has no deciding log is its deciding log if it can be read. -/
theorem decidingLog?_append_of_read {files : List Path} {path : Path} {solo : String} {log : Bytes}
    (measures : IsSoloLog solo path) (undecided : decidingLog? disk files solo = none)
    (read : disk.read path = .ok log) (trace : String) :
    decidingLog? disk (files ++ [path]) trace =
      if trace = solo then some (path, log) else decidingLog? disk files trace := by
  have measures := soloTrace?_eq_some_iff.mpr measures
  rw [decidingLog?_append_singleton]
  split
  · next same =>
      rw [same, undecided, Option.none_or, soloLog?_eq_some_iff]
      exact ⟨measures, read, rfl⟩
  · next other =>
      rw [soloLog?, measures, if_neg (by simpa using Ne.symm other), Option.or_none]

/-- One more file decides its trace if it is the first log of the trace that can be read. -/
theorem DecidedBy.takes {c c' : Calibration} {files : List Path} {path : Path}
    (decided : DecidedBy c (decidingLog? disk files)) (takes : Takes disk c path c') :
    DecidedBy c' (decidingLog? disk (files ++ [path])) := by
  have first : ∀ {solo}, c.decides solo = false → decidingLog? disk files solo = none := by
    intro solo undecided
    rw [← Option.not_isSome_iff_eq_none, ← decided.decides_iff, undecided]
    exact Bool.false_ne_true
  cases takes with
  | other none =>
      refine decided.of_same rfl rfl fun trace => .inr (if_neg fun measures => none ⟨trace, ?_⟩)
      exact soloTrace?_eq_some_iff.mp measures
  | duplicate solo measures known =>
      refine decided.of_same rfl rfl fun trace => ?_
      by_cases same : trace = solo
      · exact .inl ((decided.decides_iff trace).mp (same ▸ known))
      · exact .inr (by simp [soloLog?, soloTrace?_eq_some_iff.mpr measures, Ne.symm same])
  | unreadable solo measures undecided unread =>
      refine decided.of_same rfl rfl fun trace => .inr ?_
      rw [Option.eq_none_iff_forall_ne_some]
      intro found given
      exact unread _ (soloLog?_eq_some_iff.mp given).2.1
  | measured solo measures undecided log read positive =>
      have deciding := decidingLog?_append_of_read measures (first undecided) read
      have rate : measuredRate? log = some (LogScan.lastIpc log) := if_pos positive
      constructor <;> intro trace <;> rw [deciding]
      · rw [NameMap.get?_insert, decided.rates]
        split
        · exact rate.symm
        · rfl
      · rw [decided.crashed]
        split
        · next same => simp [same, first undecided, rate]
        · rfl
  | crashed solo measures undecided log read silent =>
      have deciding := decidingLog?_append_of_read measures (first undecided) read
      have rate : measuredRate? log = none := if_neg silent
      constructor <;> intro trace <;> rw [deciding]
      · rw [decided.rates]
        split
        · next same => rw [same, first undecided, Option.bind_some, Option.bind_none, rate]
        · rfl
      · rw [List.mem_append, List.mem_singleton, decided.crashed]
        split
        · next same => simp [same, rate]
        · next other => simp [other]

/-- The files decide their traces, each by the first of its logs that can be read. -/
theorem decidedBy_ofFiles {files : List Path} {c : Calibration}
    (done : ofFiles reader disk files = .ok c) : DecidedBy c (decidingLog? disk files) := by
  refine ofFiles_induction
    (motive := fun files c => DecidedBy c (decidingLog? disk files)) (decidedBy_empty disk) ?_ done
  intro files path c c' decided takes
  exact decided.takes takes

theorem measuredRate?_eq_some_iff {log : Bytes} {ipc : Float} :
    measuredRate? log = some ipc ↔ 0.0 < LogScan.lastIpc log ∧ LogScan.lastIpc log = ipc := by
  simp [measuredRate?]

theorem measuredRate?_eq_none_iff {log : Bytes} :
    measuredRate? log = none ↔ ¬ 0.0 < LogScan.lastIpc log := by
  simp [measuredRate?]

/-- A log reports no throughput if it measures no rate, or if its total is zero. -/
theorem not_reported_iff {log : Bytes} :
    ¬ LogScan.Reported log ↔ measuredRate? log = none ∨ LogScan.lastTotal log = 0 := by
  have zero : ¬ 0 < LogScan.lastTotal log ↔ LogScan.lastTotal log = 0 := by
    rw [UInt64.pos_iff_ne_zero, not_not]
  rw [LogScan.Reported, not_and_or, measuredRate?_eq_none_iff, zero]

/-- How a pass scores a log that can be read. The run counts as crashed if the log reports no
throughput and shows no fault, and without throughput all its cores are zero. -/
theorem scored_of_eligible {pass : Pass} {path : Path} {row : Row} {log : Bytes}
    (eligible : Pass.Eligible pass disk path row) (read : disk.read path = .ok log) :
    (row.speedup.status = .crashed ↔ ¬ LogScan.Reported log ∧
        LogScan.hasFault pass.config.collection.faultMarker log = false) ∧
      (¬ LogScan.Reported log → ∀ x ∈ row.speedup.perCore, x = 0.0) := by
  obtain ⟨log', read', scores⟩ := eligible.exists_scores
  cases read.symm.trans read'
  refine ⟨?_, scores.silent⟩
  rw [scores.status]
  by_cases reported : LogScan.Reported log <;>
    cases LogScan.hasFault pass.config.collection.faultMarker log <;> simp [reported]

/-- Measuring decides each trace by the first log of its solo runs that can be read: the trace gets
the last rate of this log if it is positive, and counts as crashed otherwise. A pass asks for more,
as a run that it takes for completed also has a total. So where the deciding log of a measured trace
has a total of zero, and only there, a pass takes the very run that was measured for one without
throughput: it makes all cores zero, and without a fault the run counts as crashed. -/
theorem measure_decides {σ : Type} (reader : LogReader) (root : Path) (disk after : Disk)
    (state final : σ) (c : Calibration)
    (measured : onDisk (measure reader root : Attempt (StateT σ DiskM) Calibration) state disk =
      ⟨.ok c, final, after⟩) :
    ∃ files, logsOn disk root = .ok files ∧
      (∀ trace ipc, c.ipcs.get? trace = some ipc ↔ ∃ path log,
        decidingLog? disk files trace = some (path, log) ∧ measuredRate? log = some ipc) ∧
      (∀ trace, trace ∈ c.crashed ↔ ∃ path log,
        decidingLog? disk files trace = some (path, log) ∧ measuredRate? log = none) ∧
      ∀ trace path log, decidingLog? disk files trace = some (path, log) →
        (∀ ipc, measuredRate? log = some ipc → 0.0 < ipc ∧ ipc = LogScan.lastIpc log) ∧
        (∀ other : LogReader, (other.read log).completed = false ↔
          measuredRate? log = none ∨ LogScan.lastTotal log = 0) ∧
        ∀ (pass : Pass) (row : Row), Pass.Eligible pass disk path row →
          (row.speedup.status = .crashed ↔
            (measuredRate? log = none ∨ LogScan.lastTotal log = 0) ∧
              LogScan.hasFault pass.config.collection.faultMarker log = false) ∧
          (measuredRate? log = none ∨ LogScan.lastTotal log = 0 →
            ∀ x ∈ row.speedup.perCore, x = 0.0) := by
  obtain ⟨files, listed, done⟩ := files_of_onDisk_measure measured
  have decided := decidedBy_ofFiles done
  refine ⟨files, listed, ?_, ?_, ?_⟩
  · intro trace ipc
    rw [decided.rates, Option.bind_eq_some_iff, Prod.exists]
  · intro trace
    rw [decided.crashed, Prod.exists]
  · intro trace path log deciding
    obtain ⟨-, -, -, -, read, -⟩ := decidingLog?_eq_some_iff.mp deciding
    refine ⟨?_, ?_, ?_⟩
    · intro ipc rate
      obtain ⟨positive, rfl⟩ := measuredRate?_eq_some_iff.mp rate
      exact ⟨positive, rfl⟩
    · intro other
      rw [← not_reported_iff, ← Pass.completed_read_iff other, Bool.not_eq_true]
    · intro pass row eligible
      rw [← not_reported_iff]
      exact scored_of_eligible eligible read

section Sample

/-- A log with a rate and without a total, and a log with both. -/
def soloLogs : List (Bytes × Bytes) :=
  [(Utf8.encode "baseline.single.a.out", Utf8.encode "(IPC = 1.5)\n"),
   (Utf8.encode "baseline.single.b.out",
      Utf8.encode "  -- total number of fetched instructions : 200 (IPC = 1.25)\n")]

/-- A disk with the logs of two traces in one directory. -/
def soloDisk : Disk :=
  ⟨.directory [(Utf8.encode "r", .directory (soloLogs.map fun log => (log.1, .file log.2)))]⟩

/-- The paths of the logs in their order. -/
def soloPaths : List Path :=
  soloLogs.map fun log => (Path.ofString "r").join log.1

/-- What the logs tell of the two traces. -/
def soloCalibration : Calibration where
  ipcs := (NameMap.empty.insert "a" 1.5).insert "b" 1.25

theorem logsOn_soloDisk : logsOn soloDisk (Path.ofString "r") = .ok soloPaths := by
  have resolved : soloDisk.top.resolve false (Path.ofString "r") = .ok (.present
      [Utf8.encode "r"] (.directory (soloLogs.map fun log => (log.1, .file log.2)))) := rfl
  exact logsOn_of_files resolved (by decide +kernel) (by decide +kernel)

theorem onDisk_measure_soloDisk :
    onDisk (measure ⟨1, defaultFaultMarker⟩ (Path.ofString "r") :
      Attempt (StateT Unit DiskM) Calibration) () soloDisk =
        ⟨.ok soloCalibration, (), soloDisk⟩ := by
  have read : ofFiles ⟨1, defaultFaultMarker⟩ soloDisk soloPaths = .ok soloCalibration := by
    decide +kernel
  rw [onDisk_measure, logsOn_soloDisk, Except.bind, read]
  rfl

/-- The log of the first trace can be scored. -/
theorem eligible_soloLog : Pass.Eligible ⟨{}, Catalog.empty.withTrace "a" 1.5⟩ soloDisk
    (Path.ofString "r/baseline.single.a.out")
    ⟨⟨none, "baseline", "none", .single, "single.a"⟩,
      Speedup.ofLog (LogReader.read ⟨16, defaultFaultMarker⟩ (Utf8.encode "(IPC = 1.5)\n")) [1.5],
      Path.ofString "r/baseline.single.a.out"⟩ where
  named := (Run.ofPath_eq_ofFileName "baseline.single.a.out" (by decide +kernel)).trans rfl
  scenario := rfl
  source := rfl
  scored := ⟨[1.5], Utf8.encode "(IPC = 1.5)\n", rfl, rfl, rfl⟩

theorem decidingLog?_soloLog : decidingLog? soloDisk soloPaths "a" =
    some (Path.ofString "r/baseline.single.a.out", Utf8.encode "(IPC = 1.5)\n") := by
  decide +kernel

end Sample

/-- Two traces are measured. A pass takes the run of the second one for completed, and that of the
first one for crashed. -/
theorem measure_decides_two_traces :
    let first := Utf8.encode "(IPC = 1.5)\n"
    let second := Utf8.encode "  -- total number of fetched instructions : 200 (IPC = 1.25)\n"
    onDisk (measure ⟨1, defaultFaultMarker⟩ (Path.ofString "r") :
        Attempt (StateT Unit DiskM) Calibration) () soloDisk = ⟨.ok soloCalibration, (), soloDisk⟩ ∧
      (∃ path, decidingLog? soloDisk soloPaths "a" = some (path, first) ∧
        (∀ reader : LogReader, (reader.read first).completed = false) ∧
        ∃ pass row, Pass.Eligible pass soloDisk path row ∧ row.speedup.status = .crashed) ∧
      ∃ path, decidingLog? soloDisk soloPaths "b" = some (path, second) ∧
        ∀ reader : LogReader, (reader.read second).completed = true := by
  intro first second
  obtain ⟨files, listed, -, -, decides⟩ := measure_decides ⟨1, defaultFaultMarker⟩
    (Path.ofString "r") soloDisk soloDisk () () soloCalibration onDisk_measure_soloDisk
  cases listed.symm.trans logsOn_soloDisk
  have deciding : decidingLog? soloDisk soloPaths "b" =
      some (Path.ofString "r/baseline.single.b.out", second) := by
    decide +kernel
  have noTotal : LogScan.lastTotal first = 0 := by decide +kernel
  obtain ⟨-, silent, scored⟩ := decides "a" _ _ decidingLog?_soloLog
  obtain ⟨-, silent', -⟩ := decides "b" _ _ deciding
  refine ⟨onDisk_measure_soloDisk, ⟨_, decidingLog?_soloLog, ?_, _, _, eligible_soloLog, ?_⟩,
    _, deciding, ?_⟩
  · exact fun reader => (silent reader).mpr (.inr noTotal)
  · exact (scored _ _ eligible_soloLog).1.mpr ⟨.inr noTotal, by decide +kernel⟩
  · intro reader
    rw [← Bool.not_eq_false, silent' reader, not_or]
    exact ⟨by decide +kernel, by decide +kernel⟩

/-- A rate is measured from a log that reports no throughput, and a pass over this very log gives it
a row that is crashed and all zero. -/
theorem measure_decides_without_total :
    let path := Path.ofString "r/baseline.single.a.out"
    let log := Utf8.encode "(IPC = 1.5)\n"
    let pass : Pass := ⟨{}, Catalog.empty.withTrace "a" 1.5⟩
    let reporter := Reporter.observing (fun _ (heard : Unit) => heard) fun _ heard => heard
    onDisk (measure ⟨1, defaultFaultMarker⟩ (Path.ofString "r") :
        Attempt (StateT Unit DiskM) Calibration) () soloDisk = ⟨.ok soloCalibration, (), soloDisk⟩ ∧
      soloCalibration.ipcs.get? "a" = some 1.5 ∧
      decidingLog? soloDisk soloPaths "a" = some (path, log) ∧
      (LogReader.read ⟨1, defaultFaultMarker⟩ log).completed = false ∧
      ∃ output row, onDisk (pass.collectFiles reporter [path]) () soloDisk =
          ⟨.ok output, (), soloDisk⟩ ∧
        output.rows = [row] ∧ row.speedup.status = .crashed ∧
        ∀ x ∈ row.speedup.perCore, x = 0.0 := by
  intro path log pass reporter
  have silent : ¬ LogScan.Reported log := not_reported_iff.mpr (.inr (by decide +kernel))
  obtain ⟨output, done, rows⟩ := Pass.exists_collectFiles_singleton eligible_soloLog (by decide)
  obtain ⟨status, zeros⟩ := scored_of_eligible eligible_soloLog rfl
  have crashed := status.mpr ⟨silent, by decide +kernel⟩
  refine ⟨onDisk_measure_soloDisk, rfl, decidingLog?_soloLog, ?_, output, _, done, rows, crashed,
    zeros silent⟩
  rw [← Bool.not_eq_true, Pass.completed_read_iff]
  exact silent

end Calibration

end SpeedupStudy
