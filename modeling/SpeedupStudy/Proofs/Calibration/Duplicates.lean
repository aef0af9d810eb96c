/-
# What a duplicate log gives way to

A log of a solo run is set aside when an earlier log has decided its trace. Deciding a trace is not
the same as measuring it: the first log that can be read decides the trace even where it reports no
rate. So a duplicate gives way to a measured rate unless its trace crashed, and then it may be the
only log of the trace that has a rate.
-/

import Mathlib
import SpeedupStudy.Proofs.Calibration.Accounting

namespace SpeedupStudy

namespace Calibration

/-- A log of a trace comes after the one that decided the trace, which told whether the trace has a
rate or crashed. -/
structure GivesWay (disk : Disk) (files : List Path) (c : Calibration) (trace : String)
    (path deciding : Path) (log : Bytes) : Prop where
  decided : decidingLog? disk files trace = some (deciding, log)
  after : [deciding, path].Sublist (logsOf trace files)
  rate : c.ipcs.get? trace = measuredRate? log
  crashed : trace ∈ c.crashed ↔ measuredRate? log = none

variable {reader : LogReader} {disk : Disk} {c : Calibration} {files : List Path} {trace : String}
  {path : Path}

theorem mem_logsOf_iff : path ∈ logsOf trace files ↔ path ∈ files ∧ IsSoloLog trace path := by
  rw [logsOf, List.mem_filter, decide_eq_true_eq]

theorem logsOf_append_cons (earlier later : List Path) (solo : IsSoloLog trace path) :
    logsOf trace (earlier ++ path :: later) =
      logsOf trace earlier ++ path :: logsOf trace later := by
  simp [logsOf, solo]

/-- A duplicate is the log of a solo run. -/
theorem Placed.exists_isSoloLog (placed : Placed files c) (duplicate : path ∈ c.duplicates) :
    ∃ trace, IsSoloLog trace path := by
  obtain ⟨deciding, -, -, places⟩ := placed
  have among : path ∈ soloLogsAmong files :=
    places.mem_iff.mpr (List.mem_append_right _ (List.mem_append_right _ duplicate))
  simpa using (List.mem_filter.mp among).2

/-- The duplicates of a trace are its logs after the first one that can be read. -/
theorem Settled.logsOf_duplicates {earlier later : List Path} {log : Bytes}
    (settled : Settled disk c trace (logsOf trace earlier ++ path :: logsOf trace later))
    (read : disk.read path = .ok log)
    (unread : ∀ other ∈ logsOf trace earlier, ∀ text, disk.read other ≠ .ok text) :
    logsOf trace c.duplicates = logsOf trace later := by
  cases settled with
  | undecided _ _ unread' _ _ => exact absurd read (unread' path (by simp) log)
  | decided path' log' split unread' read' _ _ =>
      -- Both cuts are at the first log that can be read, so neither lies before the other.
      rcases List.append_eq_append_iff.mp split with ⟨between, front, rest⟩ | ⟨between, front, rest⟩
      · cases between with
        | nil => exact (List.cons.inj rest).2.symm
        | cons other between =>
            obtain ⟨rfl, -⟩ := List.cons.inj rest
            exact absurd read (unread' path (by simp [front]) log)
      · cases between with
        | nil => exact (List.cons.inj rest).2
        | cons other between =>
            obtain ⟨rfl, -⟩ := List.cons.inj rest
            exact absurd read' (unread path' (by simp [front]) log')

/-- A trace has duplicates exactly if logs of it come after its deciding log, and these are they. -/
theorem exists_logsOf_of_decidingLog? (done : ofFiles reader disk files = .ok c) {deciding : Path}
    {log : Bytes} (decided : decidingLog? disk files trace = some (deciding, log)) :
    ∃ earlier, deciding ∉ earlier ∧
      logsOf trace files = earlier ++ deciding :: logsOf trace c.duplicates := by
  obtain ⟨earlier, later, rfl, solo, read, unread⟩ := decidingLog?_eq_some_iff.mp decided
  have solo := soloTrace?_eq_some_iff.mp solo
  have settled := settled_ofFiles done trace
  have unread' : ∀ other ∈ logsOf trace earlier, ∀ text, disk.read other ≠ .ok text := by
    intro other mem
    obtain ⟨mem, solo⟩ := mem_logsOf_iff.mp mem
    exact unread other mem (soloTrace?_eq_some_iff.mpr solo)
  rw [logsOf_append_cons earlier later solo] at settled ⊢
  rw [settled.logsOf_duplicates read unread']
  exact ⟨logsOf trace earlier, fun mem => unread' deciding mem log read, rfl⟩

/-- Nothing comes after the last place of a list where what stands there is new. -/
theorem not_sublist_concat {earlier : List Path} {deciding other : Path}
    (first : deciding ∉ earlier) : ¬ [deciding, other].Sublist (earlier ++ [deciding]) := by
  intro follows
  have reversed : [other, deciding].Sublist (deciding :: earlier.reverse) := by
    simpa using follows.reverse
  have last : [deciding].Sublist earlier.reverse := by
    cases reversed with
    | cons _ inside => exact (List.sublist_cons_self other _).trans inside
    | cons_cons _ inside => exact inside
  exact first (List.mem_reverse.mp (List.singleton_sublist.mp last))

/-- A log that comes after the deciding log makes a duplicate of the trace. -/
theorem exists_duplicate_of_follows (done : ofFiles reader disk files = .ok c) {deciding : Path}
    {log : Bytes} (decided : decidingLog? disk files trace = some (deciding, log)) {other : Path}
    (follows : [deciding, other].Sublist (logsOf trace files)) :
    ∃ path ∈ c.duplicates, IsSoloLog trace path := by
  obtain ⟨earlier, first, logs⟩ := exists_logsOf_of_decidingLog? done decided
  cases duplicates : logsOf trace c.duplicates with
  | nil =>
      rw [logs, duplicates] at follows
      exact absurd follows (not_sublist_concat first)
  | cons path rest =>
      have among : path ∈ logsOf trace c.duplicates := by
        rw [duplicates]
        exact List.mem_cons_self
      exact ⟨path, mem_logsOf_iff.mp among⟩

/-- A duplicate gives way to the log that decided its trace. -/
theorem exists_givesWay (done : ofFiles reader disk files = .ok c)
    (duplicate : path ∈ c.duplicates) (solo : IsSoloLog trace path) :
    ∃ deciding log, GivesWay disk files c trace path deciding log := by
  have among : path ∈ logsOf trace c.duplicates := mem_logsOf_iff.mpr ⟨duplicate, solo⟩
  have decidedBy := decidedBy_ofFiles done
  have decides : c.decides trace = true := by
    rw [← Bool.not_eq_false]
    intro undecided
    rw [((settled_ofFiles done trace).of_undecided undecided).2.1] at among
    cases among
  obtain ⟨⟨deciding, log⟩, decided⟩ :=
    Option.isSome_iff_exists.mp ((decidedBy.decides_iff trace).mp decides)
  obtain ⟨earlier, -, logs⟩ := exists_logsOf_of_decidingLog? done decided
  refine ⟨deciding, log, decided, ?_, ?_, ?_⟩
  · rw [logs]
    exact ((List.singleton_sublist.mpr among).cons_cons deciding).trans
      (List.sublist_append_right _ _)
  · rw [decidedBy.rates, decided, Option.bind_some]
  · rw [decidedBy.crashed, decided]
    simp

/-- Each duplicate comes after the log that decided its trace, the first one that can be read. The
trace has the last rate of that log if it is positive; otherwise the trace crashed and has no rate.
So a duplicate gives way to a measured rate exactly if its trace did not crash, and all of them do
exactly if no log of a trace comes after its deciding log where that one reports no rate. -/
theorem measure_duplicates {σ : Type} (reader : LogReader) (root : Path) (disk after : Disk)
    (state final : σ) (c : Calibration)
    (measured : onDisk (measure reader root : Attempt (StateT σ DiskM) Calibration) state disk =
      ⟨.ok c, final, after⟩) :
    ∃ files, logsOn disk root = .ok files ∧
      (∀ path ∈ c.duplicates, ∃ trace, IsSoloLog trace path ∧
        (∃ deciding log, GivesWay disk files c trace path deciding log) ∧
        ((∃ ipc, c.ipcs.get? trace = some ipc) ↔ trace ∉ c.crashed)) ∧
      ((∀ path ∈ c.duplicates, ∀ trace, IsSoloLog trace path →
          ∃ ipc, c.ipcs.get? trace = some ipc) ↔
        ∀ trace deciding log, decidingLog? disk files trace = some (deciding, log) →
          measuredRate? log = none →
            ∀ other, ¬ [deciding, other].Sublist (logsOf trace files)) := by
  obtain ⟨files, listed, done⟩ := files_of_onDisk_measure measured
  refine ⟨files, listed, ?_, ?_, ?_⟩
  · intro path duplicate
    obtain ⟨trace, solo⟩ := (placed_ofFiles done).exists_isSoloLog duplicate
    obtain ⟨deciding, log, gives⟩ := exists_givesWay done duplicate solo
    refine ⟨trace, solo, ⟨deciding, log, gives⟩, ?_⟩
    rw [gives.rate, gives.crashed, ← Option.isSome_iff_exists, Option.isSome_iff_ne_none]
  · intro favoured trace deciding log decided silent other follows
    obtain ⟨path, duplicate, solo⟩ := exists_duplicate_of_follows done decided follows
    obtain ⟨ipc, found⟩ := favoured path duplicate trace solo
    rw [(decidedBy_ofFiles done).rates, decided, Option.bind_some, silent] at found
    cases found
  · intro silent path duplicate trace solo
    obtain ⟨deciding, log, gives⟩ := exists_givesWay done duplicate solo
    rw [← Option.isSome_iff_exists, Option.isSome_iff_ne_none, gives.rate]
    exact fun none => silent trace deciding log gives.decided none path gives.after

section Sample

/-- Two logs of each of two traces. The first log of one trace is empty. -/
def repeatedSoloLogs : List (Bytes × Bytes) :=
  [(Utf8.encode "baseline.single.a.out", []),
   (Utf8.encode "baseline.single.b.out", Utf8.encode "(IPC = 1.25)\n"),
   (Utf8.encode "benign.baseline.none.single.a.out", Utf8.encode "(IPC = 1.5)\n"),
   (Utf8.encode "benign.baseline.none.single.b.out", Utf8.encode "(IPC = 2.5)\n")]

/-- A disk with these logs in one directory. -/
def repeatedSoloDisk : Disk :=
  ⟨.directory
    [(Utf8.encode "r", .directory (repeatedSoloLogs.map fun log => (log.1, .file log.2)))]⟩

/-- The paths of the logs in their order. -/
def repeatedSoloPaths : List Path :=
  repeatedSoloLogs.map fun log => (Path.ofString "r").join log.1

/-- What the logs tell of the two traces. -/
def repeatedSoloCalibration : Calibration where
  ipcs := NameMap.empty.insert "b" 1.25
  crashed := ["a"]
  duplicates := [Path.ofString "r/benign.baseline.none.single.a.out",
    Path.ofString "r/benign.baseline.none.single.b.out"]

theorem logsOn_repeatedSoloDisk :
    logsOn repeatedSoloDisk (Path.ofString "r") = .ok repeatedSoloPaths := by
  have resolved : repeatedSoloDisk.top.resolve false (Path.ofString "r") = .ok (.present
      [Utf8.encode "r"] (.directory (repeatedSoloLogs.map fun log => (log.1, .file log.2)))) := rfl
  exact logsOn_of_files resolved (by decide +kernel) (by decide +kernel)

theorem onDisk_measure_repeatedSoloDisk :
    onDisk (measure ⟨1, defaultFaultMarker⟩ (Path.ofString "r") :
      Attempt (StateT Unit DiskM) Calibration) () repeatedSoloDisk =
        ⟨.ok repeatedSoloCalibration, (), repeatedSoloDisk⟩ := by
  have read : ofFiles ⟨1, defaultFaultMarker⟩ repeatedSoloDisk repeatedSoloPaths =
      .ok repeatedSoloCalibration := by
    decide +kernel
  rw [onDisk_measure, logsOn_repeatedSoloDisk, Except.bind, read]
  rfl

end Sample

/-- The second log of one trace gives way to a rate, and that of the other one to a crash. -/
theorem measure_duplicates_repeated :
    let ofA := Path.ofString "r/benign.baseline.none.single.a.out"
    let ofB := Path.ofString "r/benign.baseline.none.single.b.out"
    onDisk (measure ⟨1, defaultFaultMarker⟩ (Path.ofString "r") :
        Attempt (StateT Unit DiskM) Calibration) () repeatedSoloDisk =
          ⟨.ok repeatedSoloCalibration, (), repeatedSoloDisk⟩ ∧
      repeatedSoloCalibration.duplicates = [ofA, ofB] ∧ IsSoloLog "a" ofA ∧ IsSoloLog "b" ofB ∧
      (∃ deciding log, GivesWay repeatedSoloDisk repeatedSoloPaths repeatedSoloCalibration "a" ofA
        deciding log) ∧
      (¬ ∃ ipc, repeatedSoloCalibration.ipcs.get? "a" = some ipc) ∧
      ∃ ipc, repeatedSoloCalibration.ipcs.get? "b" = some ipc := by
  intro ofA ofB
  obtain ⟨files, listed, gives, -⟩ := measure_duplicates ⟨1, defaultFaultMarker⟩
    (Path.ofString "r") repeatedSoloDisk repeatedSoloDisk () () repeatedSoloCalibration
    onDisk_measure_repeatedSoloDisk
  cases listed.symm.trans logsOn_repeatedSoloDisk
  have soloA : IsSoloLog "a" ofA := by decide +kernel
  have soloB : IsSoloLog "b" ofB := by decide +kernel
  obtain ⟨trace, solo, givesA, crashed⟩ := gives ofA (by decide)
  cases solo.unique soloA
  obtain ⟨trace, solo, -, measured⟩ := gives ofB (by decide)
  cases solo.unique soloB
  exact ⟨onDisk_measure_repeatedSoloDisk, rfl, soloA, soloB, givesA,
    fun rate => crashed.mp rate (by decide), measured.mpr (by decide)⟩

/-- A log with a rate is set aside as a duplicate, and its trace has no rate, because an earlier log
of the trace is empty. -/
theorem measure_duplicates_after_crash :
    let path := Path.ofString "r/benign.baseline.none.single.a.out"
    onDisk (measure ⟨1, defaultFaultMarker⟩ (Path.ofString "r") :
        Attempt (StateT Unit DiskM) Calibration) () repeatedSoloDisk =
          ⟨.ok repeatedSoloCalibration, (), repeatedSoloDisk⟩ ∧
      path ∈ repeatedSoloCalibration.duplicates ∧ IsSoloLog "a" path ∧
      repeatedSoloCalibration.ipcs.get? "a" = none ∧
      ∃ log, repeatedSoloDisk.read path = .ok log ∧ measuredRate? log = some 1.5 := by
  intro path
  exact ⟨onDisk_measure_repeatedSoloDisk, by decide, by decide +kernel, rfl,
    Utf8.encode "(IPC = 1.5)\n", by decide +kernel, by decide +kernel⟩

end Calibration

end SpeedupStudy
