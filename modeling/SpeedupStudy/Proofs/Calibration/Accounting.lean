/-
# What becomes of each solo log

Measuring meets the logs of a trace in the order of paths, and what it does with one of them depends
on whether the trace is decided by then. So the logs of a trace fall into three parts: those before
the first one that can be read are unreadable, that one decides the trace, and those after it are
duplicates, which nobody reads. Each log of a solo run is in one of these places and no other file
has any part in this, which is why the numbers of traces, unreadable logs and duplicates add up to
that of the logs, and why other files may come, go and change.
-/

import SpeedupStudy.Proofs.Calibration.Deciding
import SpeedupStudy.Proofs.NameMap
import SpeedupStudy.Proofs.Path

namespace SpeedupStudy

namespace Calibration

instance (trace : String) (path : Path) : Decidable (IsSoloLog trace path) :=
  decidable_of_iff _ soloTrace?_eq_some_iff

instance (path : Path) : Decidable (∃ trace, IsSoloLog trace path) :=
  decidable_of_iff ((soloTrace? path).isSome = true) (by
    simp only [Option.isSome_iff_exists, soloTrace?_eq_some_iff])

/-- A log measures one trace. -/
theorem IsSoloLog.unique {trace trace' : String} {path : Path} (solo : IsSoloLog trace path)
    (solo' : IsSoloLog trace' path) : trace = trace' :=
  Option.some.inj
    ((soloTrace?_eq_some_iff.mpr solo).symm.trans (soloTrace?_eq_some_iff.mpr solo'))

/-- The logs of solo runs among some files. -/
def soloLogsAmong (files : List Path) : List Path :=
  files.filter fun path => ∃ trace, IsSoloLog trace path

/-- The logs of the solo runs of a trace among some files. -/
def logsOf (trace : String) (files : List Path) : List Path :=
  files.filter fun path => IsSoloLog trace path

theorem soloLogsAmong_concat (files : List Path) (path : Path) :
    soloLogsAmong (files ++ [path]) =
      soloLogsAmong files ++ if ∃ trace, IsSoloLog trace path then [path] else [] := by
  rw [soloLogsAmong, List.filter_append, List.filter_singleton]
  by_cases solo : ∃ trace, IsSoloLog trace path <;> simp [soloLogsAmong, solo]

theorem logsOf_concat (trace : String) (files : List Path) (path : Path) :
    logsOf trace (files ++ [path]) =
      logsOf trace files ++ if IsSoloLog trace path then [path] else [] := by
  rw [logsOf, List.filter_append, List.filter_singleton]
  by_cases solo : IsSoloLog trace path <;> simp [logsOf, solo]

section Traces

/-- What became of the logs of a trace, which are these. -/
inductive Settled (disk : Disk) (c : Calibration) (trace : String) (logs : List Path) : Prop
  /-- None of them can be read. -/
  | undecided (unreadable : logsOf trace c.unreadable = logs)
      (duplicates : logsOf trace c.duplicates = [])
      (unread : ∀ path ∈ logs, ∀ log, disk.read path ≠ .ok log)
      (rate : c.ipcs.get? trace = none) (crashed : c.crashed.count trace = 0)
  /-- One of them decides the trace, and none of those before it can be read. -/
  | decided (path : Path) (log : Bytes)
      (split : logs = logsOf trace c.unreadable ++ path :: logsOf trace c.duplicates)
      (unread : ∀ earlier ∈ logsOf trace c.unreadable, ∀ log, disk.read earlier ≠ .ok log)
      (read : disk.read path = .ok log) (rate : c.ipcs.get? trace = measuredRate? log)
      (crashed : c.crashed.count trace = if measuredRate? log = none then 1 else 0)

variable {disk : Disk} {c c' : Calibration} {trace : String} {logs files : List Path} {path : Path}

theorem decides_eq_false_iff :
    c.decides trace = false ↔ c.ipcs.get? trace = none ∧ c.crashed.count trace = 0 := by
  rw [decides, Bool.or_eq_false_iff, NameMap.contains, Option.isSome_eq_false_iff,
    Option.isNone_iff_eq_none, List.count_eq_zero, ← List.contains_iff_mem, Bool.not_eq_true]

/-- The logs of a trace that is not decided cannot be read. -/
theorem Settled.of_undecided (settled : Settled disk c trace logs)
    (undecided : c.decides trace = false) :
    logsOf trace c.unreadable = logs ∧ logsOf trace c.duplicates = [] ∧
      ∀ path ∈ logs, ∀ log, disk.read path ≠ .ok log := by
  cases settled with
  | undecided unreadable duplicates unread _ _ => exact ⟨unreadable, duplicates, unread⟩
  | decided path log split unread read rate crashed =>
      obtain ⟨rate', crashed'⟩ := decides_eq_false_iff.mp undecided
      rw [rate'] at rate
      rw [if_pos rate.symm, crashed'] at crashed
      cases crashed

/-- A file that does not measure a trace leaves what became of the logs of the trace as it was. -/
theorem Settled.takes_other (settled : Settled disk c trace logs) (takes : Takes disk c path c')
    (other : ¬ IsSoloLog trace path) : Settled disk c' trace logs := by
  have kept : logsOf trace c'.unreadable = logsOf trace c.unreadable ∧
      logsOf trace c'.duplicates = logsOf trace c.duplicates ∧
      c'.ipcs.get? trace = c.ipcs.get? trace ∧
      c'.crashed.count trace = c.crashed.count trace := by
    have apart : ∀ {solo}, IsSoloLog solo path → trace ≠ solo :=
      fun measures same => other (same ▸ measures)
    cases takes with
    | other none => exact ⟨rfl, rfl, rfl, rfl⟩
    | duplicate solo measures decided =>
        exact ⟨rfl, by rw [addDuplicate, logsOf_concat, if_neg other, List.append_nil], rfl, rfl⟩
    | unreadable solo measures undecided unread =>
        exact ⟨by rw [logsOf_concat, if_neg other, List.append_nil], rfl, rfl, rfl⟩
    | measured solo measures undecided log read positive =>
        exact ⟨rfl, rfl, by rw [NameMap.get?_insert, if_neg (apart measures)], rfl⟩
    | crashed solo measures undecided log read silent =>
        refine ⟨rfl, rfl, rfl, ?_⟩
        rw [List.count_append, List.count_singleton, if_neg (by simpa using (apart measures).symm)]
        rfl
  obtain ⟨unreadable, duplicates, rate, crashed⟩ := kept
  cases settled with
  | undecided unreadable' duplicates' unread rate' crashed' =>
      exact .undecided (unreadable.trans unreadable') (duplicates.trans duplicates') unread
        (rate.trans rate') (crashed.trans crashed')
  | decided path log split unread read rate' crashed' =>
      exact .decided path log (by rw [unreadable, duplicates, split]) (by rwa [unreadable]) read
        (rate.trans rate') (crashed.trans crashed')

/-- One more log of a trace is a duplicate if the trace is decided. Otherwise it decides the trace
if it can be read. -/
theorem Settled.takes_solo (settled : Settled disk c trace logs) (takes : Takes disk c path c')
    (measures : IsSoloLog trace path) : Settled disk c' trace (logs ++ [path]) := by
  cases takes with
  | other none => exact absurd ⟨trace, measures⟩ none
  | duplicate solo measures' decided =>
      cases measures.unique measures'
      have here : logsOf trace (c.addDuplicate path).duplicates =
          logsOf trace c.duplicates ++ [path] := by
        rw [addDuplicate, logsOf_concat, if_pos measures]
      cases settled with
      | undecided _ _ _ rate crashed =>
          rw [decides_eq_false_iff.mpr ⟨rate, crashed⟩] at decided
          cases decided
      | decided path' log split unread read rate crashed =>
          refine .decided path' log ?_ unread read rate crashed
          rw [here, split, List.append_assoc, List.cons_append]
          rfl
  | unreadable solo measures' undecided unread =>
      cases measures.unique measures'
      obtain ⟨unreadable, duplicates, unread'⟩ := settled.of_undecided undecided
      obtain ⟨rate, crashed⟩ := decides_eq_false_iff.mp undecided
      refine .undecided ?_ duplicates ?_ rate crashed
      · rw [logsOf_concat, if_pos measures, unreadable]
      · rw [List.forall_mem_append, List.forall_mem_singleton]
        exact ⟨unread', unread⟩
  | measured solo measures' undecided log read positive =>
      cases measures.unique measures'
      obtain ⟨unreadable, duplicates, unread⟩ := settled.of_undecided undecided
      obtain ⟨-, crashed⟩ := decides_eq_false_iff.mp undecided
      have rate : measuredRate? log = some (LogScan.lastIpc log) := if_pos positive
      refine .decided path log ?_ (unreadable ▸ unread) read ?_ ?_
      · rw [unreadable, duplicates]
      · rw [NameMap.get?_insert, if_pos rfl, rate]
      · rw [crashed, rate]
        rfl
  | crashed solo measures' undecided log read silent =>
      cases measures.unique measures'
      obtain ⟨unreadable, duplicates, unread⟩ := settled.of_undecided undecided
      obtain ⟨rate, crashed⟩ := decides_eq_false_iff.mp undecided
      have silent : measuredRate? log = none := if_neg silent
      refine .decided path log ?_ (unreadable ▸ unread) read (rate.trans silent.symm) ?_
      · rw [unreadable, duplicates]
      · rw [List.count_append, crashed, silent, List.count_singleton_self, if_pos rfl]

/-- A trace counts as crashed once, and only if it has no rate. -/
theorem Settled.crashed_once (settled : Settled disk c trace logs) :
    c.crashed.count trace ≤ 1 ∧ (trace ∈ c.crashed → c.ipcs.get? trace = none) := by
  cases settled with
  | undecided _ _ _ rate crashed => exact ⟨by omega, fun _ => rate⟩
  | decided path log _ _ _ rate crashed =>
      rw [crashed, rate]
      split
      · next silent => exact ⟨le_refl 1, fun _ => silent⟩
      · next measured =>
          rw [if_neg measured] at crashed
          exact ⟨zero_le_one, fun mem => absurd mem (List.count_eq_zero.mp crashed)⟩

variable {reader : LogReader}

/-- The logs of every trace are settled in the end. -/
theorem settled_ofFiles (done : ofFiles reader disk files = .ok c) (trace : String) :
    Settled disk c trace (logsOf trace files) := by
  refine ofFiles_induction
    (motive := fun files c => Settled disk c trace (logsOf trace files)) ?_ ?_ done
  · exact .undecided rfl rfl nofun rfl rfl
  · intro files path c c' settled takes
    rw [logsOf_concat]
    split
    · next measures => exact settled.takes_solo takes measures
    · next other =>
        rw [List.append_nil]
        exact settled.takes_other takes other

end Traces

section Places

variable {disk : Disk} {c c' : Calibration} {files : List Path} {path : Path}

/-- Where the logs of solo runs went: each one decided a trace, or it could not be read, or it is a
duplicate. -/
def Placed (files : List Path) (c : Calibration) : Prop :=
  ∃ deciding : List (String × Path), (∀ found ∈ deciding, IsSoloLog found.1 found.2) ∧
    (deciding.map (·.1)).Perm (c.ipcs.names ++ c.crashed) ∧
    (soloLogsAmong files).Perm (deciding.map (·.2) ++ (c.unreadable ++ c.duplicates))

/-- One more file leaves every log in its place and goes to one itself if it is such a log. -/
theorem Placed.takes (placed : Placed files c) (takes : Takes disk c path c') :
    Placed (files ++ [path]) c' := by
  obtain ⟨deciding, measure, traces, places⟩ := placed
  rw [Placed, soloLogsAmong_concat]
  cases takes with
  | other none =>
      rw [if_neg none, List.append_nil]
      exact ⟨deciding, measure, traces, places⟩
  | duplicate solo measures decided =>
      rw [if_pos ⟨solo, measures⟩]
      refine ⟨deciding, measure, traces, (places.append_right [path]).trans ?_⟩
      rw [addDuplicate, List.append_assoc, List.append_assoc]
  | unreadable solo measures undecided unread =>
      rw [if_pos ⟨solo, measures⟩]
      refine ⟨deciding, measure, traces, (places.append_right [path]).trans ?_⟩
      rw [List.append_assoc, List.append_assoc, List.append_assoc]
      exact (List.perm_append_comm.append_left c.unreadable).append_left _
  | measured solo measures undecided log read positive =>
      have absent := (decides_eq_false_iff.mp undecided).1
      rw [if_pos ⟨solo, measures⟩]
      refine ⟨(solo, path) :: deciding, List.forall_mem_cons.mpr ⟨measures, measure⟩, ?_, ?_⟩
      · exact (traces.cons solo).trans
          ((NameMap.names_insert_perm _ absent).symm.append_right c.crashed)
      · exact (List.perm_append_singleton path _).trans (places.cons path)
  | crashed solo measures undecided log read silent =>
      rw [if_pos ⟨solo, measures⟩]
      refine ⟨(solo, path) :: deciding, List.forall_mem_cons.mpr ⟨measures, measure⟩, ?_, ?_⟩
      · rw [← List.append_assoc]
        exact (traces.cons solo).trans (List.perm_append_singleton solo _).symm
      · exact (List.perm_append_singleton path _).trans (places.cons path)

variable {reader : LogReader}

/-- Each log of a solo run is in its place in the end. -/
theorem placed_ofFiles (done : ofFiles reader disk files = .ok c) : Placed files c := by
  refine ofFiles_induction (motive := Placed) ?_ ?_ done
  · exact ⟨[], nofun, .refl _, .refl _⟩
  · intro files path c c' placed takes
    exact placed.takes takes

/-- There are as many logs of solo runs as traces, unreadable logs and duplicates. -/
theorem Placed.length_eq (placed : Placed files c) : (soloLogsAmong files).length =
    c.ipcs.size + c.crashed.length + c.unreadable.length + c.duplicates.length := by
  obtain ⟨deciding, -, traces, places⟩ := placed
  have decided := traces.length_eq
  have whole := places.length_eq
  simp only [List.length_append, List.length_map, NameMap.names] at decided whole
  rw [whole, decided, NameMap.size]
  omega

end Places

section Others

variable {reader : LogReader} {disk disk' : Disk} {c : Calibration} {files files' : List Path}

/-- Files that are no logs of solo runs are passed over. -/
theorem foldlM_soloLogsAmong (files : List Path) (c : Calibration) :
    (soloLogsAmong files).foldlM (nextOn reader disk) c = files.foldlM (nextOn reader disk) c := by
  induction files generalizing c with
  | nil => rfl
  | cons path rest ih =>
      rw [soloLogsAmong, List.filter_cons]
      by_cases solo : ∃ trace, IsSoloLog trace path
      · rw [if_pos (decide_eq_true solo), List.foldlM_cons, List.foldlM_cons]
        exact bind_congr fun between => ih between
      · have passed : nextOn reader disk c path = .ok c := by
          rw [nextOn]
          cases measures : soloTrace? path with
          | none => rfl
          | some trace => exact absurd ⟨trace, soloTrace?_eq_some_iff.mp measures⟩ solo
        rw [if_neg (by simpa using solo), List.foldlM_cons, passed]
        exact ih c

/-- Files with the same logs of solo runs, which read the same, are measured alike. -/
theorem ofFiles_congr (same : soloLogsAmong files' = soloLogsAmong files)
    (reads : ∀ path ∈ soloLogsAmong files, disk'.read path = disk.read path) :
    ofFiles reader disk' files' = ofFiles reader disk files := by
  have run : ∀ (paths : List Path) (c : Calibration),
      (∀ path ∈ paths, disk'.read path = disk.read path) →
        paths.foldlM (nextOn reader disk') c = paths.foldlM (nextOn reader disk) c := by
    intro paths
    induction paths with
    | nil => exact fun c _ => rfl
    | cons path rest ih =>
        intro c reads
        obtain ⟨first, later⟩ := List.forall_mem_cons.mp reads
        have step : nextOn reader disk' c path = nextOn reader disk c path := by
          rw [nextOn, nextOn, first]
        rw [List.foldlM_cons, List.foldlM_cons, step]
        exact bind_congr fun between => ih between later
  rw [ofFiles, ofFiles, ← foldlM_soloLogsAmong files', ← foldlM_soloLogsAmong files, same]
  exact run _ _ reads

end Others

/-- Measuring accounts for the logs of solo runs among the files below the root, in the order of
paths.
* The first log of a trace that can be read decides the trace: it gets the last rate of this log if
  that is positive, and counts as crashed once otherwise. The logs of the trace before this one are
  those that are unreadable, and those after it the duplicates. Without such a log all logs of the
  trace are unreadable.
* Each log of a solo run decided a trace or is unreadable or a duplicate, so these are as many as
  the logs.
* A trace does not have a rate and count as crashed, and it counts as crashed once.
* The same logs of solo runs that read the same give the same calibration, whatever other files
  there are. -/
theorem measure_accounts {σ : Type} (reader : LogReader) (root : Path) (disk after : Disk)
    (state final : σ) (c : Calibration)
    (measured : onDisk (measure reader root : Attempt (StateT σ DiskM) Calibration) state disk =
      ⟨.ok c, final, after⟩) :
    ∃ files, onDisk (discover root : Attempt (StateT σ DiskM) (List Path)) state disk =
        ⟨.ok files, state, disk⟩ ∧
      files.Pairwise (fun a b => (a.compare b).isLE) ∧
      (∀ trace, Settled disk c trace (logsOf trace files)) ∧
      Placed files c ∧
      (soloLogsAmong files).length =
        c.ipcs.size + c.crashed.length + c.unreadable.length + c.duplicates.length ∧
      (∀ trace ∈ c.crashed, c.ipcs.get? trace = none) ∧ c.crashed.Nodup ∧
      ∀ (root' : Path) (disk' : Disk) (state' : σ) (files' : List Path),
        onDisk (discover root' : Attempt (StateT σ DiskM) (List Path)) state' disk' =
          ⟨.ok files', state', disk'⟩ →
        soloLogsAmong files' = soloLogsAmong files →
        (∀ path ∈ soloLogsAmong files, disk'.read path = disk.read path) →
        onDisk (measure reader root' : Attempt (StateT σ DiskM) Calibration) state' disk' =
          ⟨.ok c, state', disk'⟩ := by
  obtain ⟨files, listed, done⟩ := files_of_onDisk_measure measured
  have settled := settled_ofFiles done
  have placed := placed_ofFiles done
  have ordered : files.Pairwise fun a b => (a.compare b).isLE := by
    rw [logsOn] at listed
    split at listed
    · cases listed
    · cases listed
      exact pairwise_sortBy _
    · cases listed
  refine ⟨files, ?_, ordered, settled, placed, placed.length_eq, ?_, ?_, ?_⟩
  · rw [onDisk_discover, listed]
  · exact fun trace => (settled trace).crashed_once.2
  · exact List.nodup_iff_count_le_one.mpr fun trace => (settled trace).crashed_once.1
  · intro root' disk' state' files' discovered same reads
    rw [onDisk_discover, Ended.mk.injEq] at discovered
    rw [onDisk_measure, discovered.1, Except.bind, ofFiles_congr same reads, done]
    rfl

section Sample

/-- Four logs of two traces, the first one a link that leads nowhere and the last one in a directory
of its own, and other files. -/
def visitedEntries (others : List (Bytes × Node)) : List (Bytes × Node) :=
  (Utf8.encode "baseline.single.a.out", .link (Path.ofString "gone")) ::
  (Utf8.encode "baseline.single.b.out", .file []) ::
  (Utf8.encode "benign.baseline.none.single.a.out", .file (Utf8.encode "(IPC = 1.5)\n")) ::
  (Utf8.encode "later", .directory
    [(Utf8.encode "baseline.single.a.out", .file (Utf8.encode "(IPC = 2.5)\n"))]) ::
  others

/-- A disk with these entries in one directory. -/
def visitedDisk (others : List (Bytes × Node)) : Disk :=
  ⟨.directory [(Utf8.encode "r", .directory (visitedEntries others))]⟩

/-- The paths of the four logs in their order. -/
def visitedPaths : List Path :=
  [Path.ofString "r/baseline.single.a.out", Path.ofString "r/baseline.single.b.out",
    Path.ofString "r/benign.baseline.none.single.a.out",
    Path.ofString "r/later/baseline.single.a.out"]

/-- What the logs tell of the two traces. -/
def visitedCalibration : Calibration where
  ipcs := NameMap.empty.insert "a" 1.5
  crashed := ["b"]
  unreadable := [Path.ofString "r/baseline.single.a.out"]
  duplicates := [Path.ofString "r/later/baseline.single.a.out"]

theorem logsBelow_visitedEntries (others : List (Bytes × Node)) :
    logsBelow (Path.ofString "r") (Node.listings (visitedEntries others)) =
      visitedPaths ++ logsBelow (Path.ofString "r") (Node.listings others) := by
  have named : ∀ name ∈ ["baseline.single.a.out", "baseline.single.b.out",
      "benign.baseline.none.single.a.out"], isLogName (Utf8.encode name) = true := by
    decide +kernel
  have joined : visitedPaths = [(Path.ofString "r").join (Utf8.encode "baseline.single.a.out"),
      (Path.ofString "r").join (Utf8.encode "baseline.single.b.out"),
      (Path.ofString "r").join (Utf8.encode "benign.baseline.none.single.a.out"),
      ((Path.ofString "r").join (Utf8.encode "later")).join
        (Utf8.encode "baseline.single.a.out")] := by
    decide +kernel
  simp only [List.forall_mem_cons] at named
  simp [visitedEntries, Node.listings, Node.listing, logsBelow, named, joined]

theorem logsOn_visitedDisk {others : List (Bytes × Node)}
    (opens : Disk.opensAll (Path.ofString "r") (Node.listings others) = true)
    (ordered : (visitedPaths ++ logsBelow (Path.ofString "r") (Node.listings others)).Pairwise
      fun a b => (a.compare b).isLE) :
    logsOn (visitedDisk others) (Path.ofString "r") =
      .ok (visitedPaths ++ logsBelow (Path.ofString "r") (Node.listings others)) := by
  have resolved : (visitedDisk others).top.resolve false (Path.ofString "r") =
      .ok (.present [Utf8.encode "r"] (.directory (visitedEntries others))) := rfl
  have short : ((Path.ofString "r").join (Utf8.encode "later")).problem? = none := by
    decide +kernel
  have opens' :
      Disk.opensAll (Path.ofString "r") (Node.listings (visitedEntries others)) = true := by
    simp [visitedEntries, Node.listings, Node.listing, Disk.opensAll, short, opens]
  have listed : (visitedDisk others).listing (Path.ofString "r") =
      .ok (some (.directory (Node.listings (visitedEntries others)))) := by
    simp [Disk.listing, resolved, opens']
  simp only [logsOn, listed, logsBelow_visitedEntries, sortBy_of_pairwise ordered]

theorem logsOn_visitedDisk_nil :
    logsOn (visitedDisk []) (Path.ofString "r") = .ok visitedPaths := by
  have none : logsBelow (Path.ofString "r") (Node.listings []) = [] := by
    simp [Node.listings, logsBelow]
  have found := @logsOn_visitedDisk [] (by simp [Node.listings, Disk.opensAll])
    (by rw [none, List.append_nil]; decide +kernel)
  rwa [none, List.append_nil] at found

theorem onDisk_measure_visitedDisk :
    onDisk (measure ⟨1, defaultFaultMarker⟩ (Path.ofString "r") :
      Attempt (StateT Unit DiskM) Calibration) () (visitedDisk []) =
        ⟨.ok visitedCalibration, (), visitedDisk []⟩ := by
  have read : ofFiles ⟨1, defaultFaultMarker⟩ (visitedDisk []) visitedPaths =
      .ok visitedCalibration := by
    decide +kernel
  rw [onDisk_measure, logsOn_visitedDisk_nil, Except.bind, read]
  rfl

/-- The log of a run with a mitigation, which is no solo log. -/
def mitigatedEntries : List (Bytes × Node) :=
  [(Utf8.encode "para.512.single.a.out", .file (Utf8.encode "(IPC = 3.5)\n"))]

theorem logsOn_visitedDisk_mitigated :
    logsOn (visitedDisk mitigatedEntries) (Path.ofString "r") =
      .ok (visitedPaths ++ [Path.ofString "r/para.512.single.a.out"]) := by
  have named : isLogName (Utf8.encode "para.512.single.a.out") = true := by decide +kernel
  have joined : (Path.ofString "r").join (Utf8.encode "para.512.single.a.out") =
      Path.ofString "r/para.512.single.a.out" := by
    decide +kernel
  have one : logsBelow (Path.ofString "r") (Node.listings mitigatedEntries) =
      [Path.ofString "r/para.512.single.a.out"] := by
    simp [mitigatedEntries, Node.listings, Node.listing, logsBelow, named, joined]
  have found := @logsOn_visitedDisk mitigatedEntries
    (by simp [mitigatedEntries, Node.listings, Node.listing, Disk.opensAll])
    (by rw [one]; decide +kernel)
  rwa [one] at found

end Sample

/-- The trace whose first log cannot be read is decided by the second one, the empty log is a crash,
and another log makes no difference. -/
theorem measure_accounts_visited :
    let reader : LogReader := ⟨1, defaultFaultMarker⟩
    let root := Path.ofString "r"
    onDisk (measure reader root : Attempt (StateT Unit DiskM) Calibration) () (visitedDisk []) =
        ⟨.ok visitedCalibration, (), visitedDisk []⟩ ∧
      visitedCalibration.crashed = ["b"] ∧ visitedCalibration.ipcs.get? "b" = none ∧
      (soloLogsAmong visitedPaths).length = 4 ∧
      (∀ trace, Settled (visitedDisk []) visitedCalibration trace (logsOf trace visitedPaths)) ∧
      onDisk (measure reader root : Attempt (StateT Unit DiskM) Calibration) ()
          (visitedDisk mitigatedEntries) =
        ⟨.ok visitedCalibration, (), visitedDisk mitigatedEntries⟩ := by
  intro reader root
  obtain ⟨files, found, -, settled, -, number, silent, -, others⟩ := measure_accounts reader root
    (visitedDisk []) (visitedDisk []) () () visitedCalibration onDisk_measure_visitedDisk
  rw [onDisk_discover, logsOn_visitedDisk_nil, Ended.mk.injEq] at found
  cases found.1
  have solo : soloLogsAmong (visitedPaths ++ [Path.ofString "r/para.512.single.a.out"]) =
      soloLogsAmong visitedPaths := by
    decide +kernel
  refine ⟨onDisk_measure_visitedDisk, rfl, silent "b" (by decide), number, settled, ?_⟩
  refine others root (visitedDisk mitigatedEntries) () _ ?_ solo ?_
  · rw [onDisk_discover, logsOn_visitedDisk_mitigated]
  · decide +kernel

end Calibration

end SpeedupStudy
