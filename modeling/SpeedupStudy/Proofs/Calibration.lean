/-
# What calibration measures

Measuring reads the disk and leaves it alone. All that one more file can do is said once, so what
each of these steps keeps is kept by measuring. Each log adds at most one rate, which is finite and
positive, for a trace that has a name, whatever the log holds. So a usable catalog stays usable with
the measured rates, and it has them for the measured traces only.
-/

import SpeedupStudy.Calibration
import SpeedupStudy.Proofs.Catalog.Usable
import SpeedupStudy.Proofs.Execution
import SpeedupStudy.Proofs.FileSystem.Disk
import SpeedupStudy.Proofs.Log.Fields
import SpeedupStudy.Proofs.Run.FileName
import SpeedupStudy.Proofs.Sort

namespace SpeedupStudy

/-- A path that names a run names a well-formed one. -/
theorem Run.wellFormed_of_ofPath {path : Path} {run : Run} (named : ofPath path = .ok run) :
    run.WellFormed := by
  rw [ofPath] at named
  split at named
  · cases named
  · exact (ofFileName_eq_ok_iff.mp named).1

/-- What a reader makes of a file is what it reads from the log there. -/
theorem LogReader.eq_of_readContents? {reader : LogReader} {contents : Except IoError Bytes}
    {result : Except IoError RunLog} (done : reader.readContents? contents = .ok result) :
    result = contents.map reader.read := by
  cases contents with
  | ok log =>
      rw [readContents?, read?] at done
      split at done <;> cases done
      rfl
  | error cause =>
      rw [readContents?] at done
      split at done <;> cases done
      rfl

namespace Calibration

/-- Whether a file is the log of a benign baseline run of a trace alone, by its name. -/
def IsSoloLog (trace : String) (path : Path) : Prop :=
  ∃ run, Run.ofPath path = .ok run ∧ run.method = baselineMethod ∧ run.mode = .single ∧
    run.effectiveScenario = .benign ∧ run.workload = trace

theorem soloTrace?_eq_some_iff {path : Path} {trace : String} :
    soloTrace? path = some trace ↔ IsSoloLog trace path := by
  rw [soloTrace?, IsSoloLog]
  cases Run.ofPath path with
  | error cause => simp
  | ok run =>
      simp [isSoloRun, Run.isBaseline, Run.belongsTo, and_assoc]

/-- A log measures a trace that has a name. -/
theorem IsSoloLog.ne_empty {trace : String} {path : Path} (solo : IsSoloLog trace path) :
    trace ≠ "" := by
  obtain ⟨run, named, -, -, -, rfl⟩ := solo
  exact (Run.workload_of_wellFormed (Run.wellFormed_of_ofPath named)).1

/-- The calibration after one more file of a disk. -/
def nextOn (reader : LogReader) (disk : Disk) (c : Calibration) (path : Path) :
    Except Abort Calibration :=
  match soloTrace? path with
  | none => .ok c
  | some trace =>
    if c.decides trace then .ok (c.addDuplicate path)
    else (reader.readContents? (disk.read path)).map (c.add path trace)

/-- The calibration after some files of a disk. -/
def ofFiles (reader : LogReader) (disk : Disk) (files : List Path) : Except Abort Calibration :=
  files.foldlM (nextOn reader disk) {}

section Steps

variable {σ : Type} (reader : LogReader) (disk : Disk)

/-- One more file is read from the disk, and only that is done there. -/
theorem onDisk_next (c : Calibration) (path : Path) (state : σ) :
    onDisk (next reader c path : Attempt (StateT σ DiskM) Calibration) state disk =
      ⟨(nextOn reader disk c path).mapError .aborted, state, disk⟩ := by
  unfold next nextOn
  cases soloTrace? path with
  | none => rfl
  | some trace =>
      by_cases decided : c.decides trace = true
      · simp only [if_pos decided]
        rfl
      · simp only [if_neg decided, onDisk_bind, onDisk_read, Ended.andThen_ok, onDisk_unlessAborted]
        cases reader.readContents? (disk.read path) <;> rfl

/-- The files are read one after another. -/
theorem onDisk_foldlM_next (files : List Path) (c : Calibration) (state : σ) :
    onDisk (files.foldlM (next reader) c : Attempt (StateT σ DiskM) Calibration) state disk =
      ⟨(files.foldlM (nextOn reader disk) c).mapError .aborted, state, disk⟩ := by
  induction files generalizing c with
  | nil => rfl
  | cons path rest ih =>
      rw [List.foldlM_cons, List.foldlM_cons, onDisk_bind, onDisk_next]
      cases nextOn reader disk c path with
      | error event => rfl
      | ok c' => exact ih c'

variable {reader disk}

/-- All that one more file can do to a calibration. -/
inductive Takes (disk : Disk) (c : Calibration) (path : Path) : Calibration → Prop
  | other (none : ¬ ∃ trace, IsSoloLog trace path) : Takes disk c path c
  | duplicate (trace : String) (solo : IsSoloLog trace path) (decided : c.decides trace = true) :
      Takes disk c path (c.addDuplicate path)
  | unreadable (trace : String) (solo : IsSoloLog trace path) (undecided : c.decides trace = false)
      (unread : ∀ log, disk.read path ≠ .ok log) :
      Takes disk c path { c with unreadable := c.unreadable ++ [path] }
  | measured (trace : String) (solo : IsSoloLog trace path) (undecided : c.decides trace = false)
      (log : Bytes) (read : disk.read path = .ok log) (positive : 0.0 < LogScan.lastIpc log) :
      Takes disk c path { c with ipcs := c.ipcs.insert trace (LogScan.lastIpc log) }
  | crashed (trace : String) (solo : IsSoloLog trace path) (undecided : c.decides trace = false)
      (log : Bytes) (read : disk.read path = .ok log) (silent : ¬ 0.0 < LogScan.lastIpc log) :
      Takes disk c path { c with crashed := c.crashed ++ [trace] }

theorem takes_of_nextOn {c c' : Calibration} {path : Path}
    (done : nextOn reader disk c path = .ok c') : Takes disk c path c' := by
  rw [nextOn] at done
  cases measures : soloTrace? path with
  | none =>
      simp only [measures, Except.ok.injEq] at done
      subst done
      refine .other fun ⟨trace, solo⟩ => ?_
      rw [soloTrace?_eq_some_iff.mpr solo] at measures
      cases measures
  | some trace =>
      have solo := soloTrace?_eq_some_iff.mp measures
      simp only [measures] at done
      by_cases decided : c.decides trace = true
      · rw [if_pos decided] at done
        cases done
        exact .duplicate trace solo decided
      · rw [if_neg decided] at done
        have undecided : c.decides trace = false := Bool.not_eq_true _ ▸ decided
        cases result : reader.readContents? (disk.read path) with
        | error event =>
            rw [result] at done
            cases done
        | ok log =>
            rw [result] at done
            cases done
            rw [LogReader.eq_of_readContents? result]
            cases read : disk.read path with
            | error cause => exact .unreadable trace solo undecided (by simp [read])
            | ok log =>
                have rate : (reader.read log).ipc = LogScan.lastIpc log := by
                  rw [LogReader.read_eq]
                rw [Except.map, add, rate]
                split
                · next positive => exact .measured trace solo undecided log read positive
                · next silent => exact .crashed trace solo undecided log read silent

/-- What holds before any file and is kept by one more file holds after all files. -/
theorem ofFiles_induction {motive : List Path → Calibration → Prop} (start : motive [] {})
    (step : ∀ files path c c', motive files c → Takes disk c path c' → motive (files ++ [path]) c')
    {files : List Path} {c : Calibration} (done : ofFiles reader disk files = .ok c) :
    motive files c := by
  have run : ∀ (later before : List Path) (c c' : Calibration), motive before c →
      later.foldlM (nextOn reader disk) c = .ok c' → motive (before ++ later) c' := by
    intro later
    induction later with
    | nil =>
        intro before c c' holds done
        cases done
        rwa [List.append_nil]
    | cons path later ih =>
        intro before c c' holds done
        rw [List.foldlM_cons] at done
        cases first : nextOn reader disk c path with
        | error event =>
            rw [first] at done
            cases done
        | ok between =>
            rw [first] at done
            rw [← List.singleton_append, ← List.append_assoc]
            exact ih _ between c' (step _ _ _ _ holds (takes_of_nextOn first)) done
  exact run files [] {} c start done

/-- Whether each measured rate may stand in a catalog. -/
def Sound (c : Calibration) : Prop :=
  ∀ trace ipc, c.ipcs.get? trace = some ipc → Catalog.UsableTrace trace ipc

theorem sound_empty : Sound {} :=
  nofun

/-- One more file adds a rate that may stand in a catalog, if it adds one. -/
theorem Sound.takes {c c' : Calibration} {path : Path} (sound : c.Sound)
    (takes : Takes disk c path c') : c'.Sound := by
  cases takes with
  | measured trace solo undecided log read positive =>
      intro other ipc found
      rw [NameMap.get?_insert] at found
      split at found
      · next same =>
          subst same
          cases found
          exact ⟨solo.ne_empty, LogScan.isFinite_lastIpc log, positive⟩
      · exact sound other ipc found
  | other => exact sound
  | duplicate => exact sound
  | unreadable => exact sound
  | crashed => exact sound

theorem sound_ofFiles {files : List Path} {c : Calibration}
    (done : ofFiles reader disk files = .ok c) : c.Sound := by
  refine ofFiles_induction (motive := fun _ c => c.Sound) sound_empty ?_ done
  intro files path c c' sound takes
  exact sound.takes takes

/-- Files are read to the end where memory can list the cores. -/
theorem exists_ofFiles (fits : fitsInMemory numberSize reader.coreCount = true) (disk : Disk)
    (files : List Path) : ∃ c, ofFiles reader disk files = .ok c := by
  have step : ∀ c path, ∃ c', Calibration.nextOn reader disk c path = .ok c' := by
    intro c path
    rw [Calibration.nextOn]
    split
    · exact ⟨c, rfl⟩
    · split
      · exact ⟨_, rfl⟩
      · cases disk.read path with
        | error e => simp [LogReader.readContents?, fits, Except.map]
        | ok bytes => simp [LogReader.readContents?, LogReader.read?, fits, Except.map]
  have run : ∀ c, ∃ c', files.foldlM (Calibration.nextOn reader disk) c = .ok c' := by
    induction files with
    | nil => exact fun c => ⟨c, rfl⟩
    | cons path rest ih =>
        intro c
        obtain ⟨between, first⟩ := step c path
        obtain ⟨c', later⟩ := ih between
        refine ⟨c', ?_⟩
        rw [List.foldlM_cons, first]
        exact later
  exact run {}

/-- The logs below a root of a disk, in the order of paths. -/
def logsOn (disk : Disk) (root : Path) : Except Failure (List Path) :=
  match disk.listing root with
  | .error e => .error (.io e)
  | .ok (some (.directory entries)) => .ok (sortBy Path.compare (logsBelow root entries))
  | .ok _ => .error (.input (.notADirectory root))

theorem onDisk_discover (root : Path) (disk : Disk) (state : σ) :
    onDisk (discover root : Attempt (StateT σ DiskM) (List Path)) state disk =
      ⟨logsOn disk root, state, disk⟩ := by
  rw [discover, onDisk_bind, onDisk_listing, logsOn]
  rcases disk.listing root with e | _ | (_ | entries) <;> rfl

/-- The logs below a directory that holds only logs, in the order of their paths. -/
theorem logsOn_of_files {root : Path} {place : List Bytes} {files : List (Bytes × Bytes)}
    (resolved : disk.top.resolve false root =
      .ok (.present place (.directory (files.map fun file => (file.1, .file file.2)))))
    (named : ∀ file ∈ files, isLogName file.1 = true)
    (ordered : (files.map fun file => root.join file.1).Pairwise fun a b => (a.compare b).isLE) :
    logsOn disk root = .ok (files.map fun file => root.join file.1) := by
  have below : logsBelow root (files.map fun file => (file.1, .other)) =
      files.map fun file => root.join file.1 := by
    clear resolved ordered
    induction files with
    | nil => simp [logsBelow]
    | cons file rest ih =>
        have first := named file List.mem_cons_self
        have later := ih fun other mem => named other (List.mem_cons_of_mem _ mem)
        simp [logsBelow, first, later]
  simp only [logsOn, Disk.listing_of_files resolved, below, sortBy_of_pairwise ordered]

/-- Measuring lists the logs below the root and reads them, and only that is done on the disk. -/
theorem onDisk_measure (reader : LogReader) (root : Path) (disk : Disk) (state : σ) :
    onDisk (measure reader root : Attempt (StateT σ DiskM) Calibration) state disk =
      ⟨(logsOn disk root).bind fun files => (ofFiles reader disk files).mapError .aborted, state,
        disk⟩ := by
  rw [measure, onDisk_bind, onDisk_discover]
  cases logsOn disk root with
  | error e => rfl
  | ok files => exact onDisk_foldlM_next reader disk files {} state

theorem keeps_measure (reader : LogReader) (root : Path) :
    Keeps (measure reader root : Attempt (StateT σ DiskM) Calibration) := by
  intro state disk
  rw [onDisk_measure]

/-- A directory is measured to the end where memory can list the cores. -/
theorem exists_onDisk_measure (fits : fitsInMemory numberSize reader.coreCount = true) {root : Path}
    {disk : Disk} {entries : List (Bytes × Listing)}
    (listed : disk.listing root = .ok (some (.directory entries))) (state : σ) :
    ∃ c, onDisk (measure reader root : Attempt (StateT σ DiskM) Calibration) state disk =
      ⟨.ok c, state, disk⟩ := by
  obtain ⟨c, done⟩ := exists_ofFiles fits disk (sortBy Path.compare (logsBelow root entries))
  refine ⟨c, ?_⟩
  rw [onDisk_measure, logsOn, listed, Except.bind, done]
  rfl

/-- Only a disk whose top is a directory can be measured. -/
theorem hasDirectory_of_onDisk_measure {root : Path} {state final : σ} {after : Disk}
    {c : Calibration}
    (measured : onDisk (measure reader root : Attempt (StateT σ DiskM) Calibration) state disk =
      ⟨.ok c, final, after⟩) : disk.top.HasDirectory [] := by
  rw [onDisk_measure, logsOn] at measured
  cases listed : disk.listing root with
  | error e =>
      rw [listed] at measured
      cases measured
  | ok listing =>
      cases listing with
      | none =>
          rw [listed] at measured
          cases measured
      | some shape => exact Disk.hasDirectory_of_listing listed

theorem kept_of_onDisk_measure {root : Path} {state final : σ} {after : Disk} {c : Calibration}
    (measured : onDisk (measure reader root : Attempt (StateT σ DiskM) Calibration) state disk =
      ⟨.ok c, final, after⟩) : state = final ∧ disk = after := by
  rw [onDisk_measure, Ended.mk.injEq] at measured
  exact measured.2

/-- What was measured was read from the logs below the root. -/
theorem files_of_onDisk_measure {root : Path} {state final : σ} {after : Disk} {c : Calibration}
    (measured : onDisk (measure reader root : Attempt (StateT σ DiskM) Calibration) state disk =
      ⟨.ok c, final, after⟩) :
    ∃ files, logsOn disk root = .ok files ∧ ofFiles reader disk files = .ok c := by
  rw [onDisk_measure] at measured
  cases listed : logsOn disk root with
  | error e =>
      rw [listed] at measured
      cases measured
  | ok files =>
      rw [listed, Except.bind] at measured
      cases done : ofFiles reader disk files with
      | error event =>
          rw [done] at measured
          cases measured
      | ok c' =>
          rw [done] at measured
          cases measured
          exact ⟨files, rfl, done⟩

/-- What was measured is sound. -/
theorem sound_of_onDisk_measure {root : Path} {state final : σ} {after : Disk} {c : Calibration}
    (measured : onDisk (measure reader root : Attempt (StateT σ DiskM) Calibration) state disk =
      ⟨.ok c, final, after⟩) : c.Sound := by
  obtain ⟨files, -, done⟩ := files_of_onDisk_measure measured
  exact sound_ofFiles done

/-- A usable catalog stays usable with sound rates. -/
theorem problem?_apply {c : Calibration} (sound : c.Sound) {base : Catalog}
    (usable : base.problem? = none) : (c.apply base).problem? = none :=
  Catalog.problem?_withTraceIpcs usable sound

end Steps

end Calibration

end SpeedupStudy
