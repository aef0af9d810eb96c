/-
# What a calibration writes

Of all the steps of a calibration only the last one changes the disk, and the check before it never
fails. So a calibration that fails leaves the disk as it was, and one that succeeds leaves a file
from which the catalog with the measured rates is loaded.
-/

import SpeedupStudy.Proofs.Calibration
import SpeedupStudy.Proofs.Catalog.File
import SpeedupStudy.Proofs.CommandLine.Normalizing

namespace SpeedupStudy

namespace Command

/-- Whether a calibration starts from a catalog: the built-in one, or that of a file. -/
def StartsFrom (arguments : Arguments) (disk : Disk) (base : Catalog) : Prop :=
  match arguments.find "--catalog" with
  | .absent => base = Catalog.builtin
  | .missing => False
  | .value path =>
    onDisk (Catalog.load (Path.ofString path) : Attempt TerminalM Catalog) {} disk =
      ⟨.ok base, {}, disk⟩

/-- What a calibration works with: its options, the catalog that it starts from, and what it
measured. -/
structure Measured (arguments : Arguments) (disk : Disk) (root output : String) (base : Catalog)
    (calibration : Calibration) : Prop where
  rootAt : arguments.find "--root" = .value root
  outputAt : arguments.find "--output" = .value output
  base : StartsFrom arguments disk base
  calibration : onDisk (Calibration.measure ⟨1, defaultFaultMarker⟩ (Path.ofString root) :
    Attempt TerminalM Calibration) {} disk = ⟨.ok calibration, {}, disk⟩

variable {arguments : Arguments} {disk : Disk} {root output : String} {base : Catalog}
  {calibration : Calibration}

theorem StartsFrom.usable (starts : StartsFrom arguments disk base) : base.problem? = none := by
  unfold StartsFrom at starts
  split at starts
  · rw [starts]
    exact Catalog.problem?_builtin
  · exact starts.elim
  · next path _ =>
      obtain ⟨result, loaded, usable⟩ :=
        Catalog.exists_onDisk_load (Path.ofString path) ({} : Terminal) disk
      rw [starts] at loaded
      cases loaded
      exact usable base rfl

/-- The check of a catalog with sound rates never fails. -/
theorem onDisk_checked_apply {σ : Type} (sound : calibration.Sound) (usable : base.problem? = none)
    (state : σ) (disk : Disk) :
    onDisk ((calibration.apply base).checked : Attempt (StateT σ DiskM) Catalog) state disk =
      ⟨.ok (calibration.apply base), state, disk⟩ := by
  rw [Catalog.checked, calibration.problem?_apply sound usable]
  rfl

/-- What follows the choice of a catalog goes on with that catalog. -/
theorem andThen_option_catalog {final : Terminal} {after : Disk}
    {next : Catalog → Command TerminalM Unit}
    (done : (onDisk (option arguments "--catalog" : Command TerminalM (Option String)) {}
      disk).andThen (fun asked => match asked with
        | none => pure Catalog.builtin >>= next
        | some path => attempt (Catalog.load (Path.ofString path)) >>= next) =
      ⟨.ok (), final, after⟩) :
    ∃ base, StartsFrom arguments disk base ∧
      onDisk (next base) {} disk = ⟨.ok (), final, after⟩ := by
  rw [onDisk_option] at done
  unfold StartsFrom
  cases asked : arguments.find "--catalog" with
  | absent =>
      rw [asked, Ended.andThen_ok, onDisk_bind, onDisk_pure, Ended.andThen_ok] at done
      exact ⟨Catalog.builtin, rfl, done⟩
  | missing =>
      rw [asked] at done
      cases done
  | value path =>
      obtain ⟨result, loaded, -⟩ :=
        Catalog.exists_onDisk_load (Path.ofString path) ({} : Terminal) disk
      simp only [asked, Ended.andThen_ok, onDisk_bind, onDisk_attempt, loaded] at done
      cases result with
      | error e => cases done
      | ok base => exact ⟨base, loaded, done⟩

/-- A calibration starts from the catalog that its arguments name. -/
theorem StartsFrom.andThen (starts : StartsFrom arguments disk base)
    (next : Catalog → Command TerminalM Unit) :
    (onDisk (option arguments "--catalog" : Command TerminalM (Option String)) {} disk).andThen
      (fun asked => match asked with
        | none => pure Catalog.builtin >>= next
        | some path => attempt (Catalog.load (Path.ofString path)) >>= next) =
      onDisk (next base) {} disk := by
  rw [onDisk_option]
  unfold StartsFrom at starts
  cases asked : arguments.find "--catalog" with
  | absent =>
      rw [asked] at starts
      cases starts
      rw [Ended.andThen_ok, onDisk_bind, onDisk_pure, Ended.andThen_ok]
  | missing =>
      rw [asked] at starts
      exact starts.elim
  | value path =>
      rw [asked] at starts
      simp only [Ended.andThen_ok, onDisk_bind, onDisk_attempt, starts, Except.mapError]

/-- Once something is measured, a calibration does what writing the catalog does. -/
theorem exists_onDisk_calibrate (measured : Measured arguments disk root output base calibration)
    (found : calibration.isEmpty = false) {text : String}
    (written : (calibration.apply base).toToml? = some text) :
    ∃ shown, onDisk (calibrate arguments : Command TerminalM Unit) {} disk =
      match disk.write (Path.ofString output) (Utf8.encode text) with
      | .ok after => ⟨.ok (), shown, after⟩
      | .error e => ⟨.error (.failed (.io e)), shown, disk⟩ := by
  have sound := Calibration.sound_of_onDisk_measure measured.calibration
  unfold calibrate
  rw [onDisk_bind, onDisk_required, measured.rootAt, Ended.andThen_ok, onDisk_bind,
    onDisk_required, measured.outputAt, Ended.andThen_ok, onDisk_bind]
  suffices rest : ∃ shown, _ = _ from
    rest.imp fun shown done => (measured.base.andThen _).trans done
  rw [onDisk_bind, onDisk_attempt, measured.calibration, Except.mapError, Ended.andThen_ok]
  simp only [found, Bool.false_eq_true, if_false, onDisk_bind, onDisk_printAll, Ended.andThen_ok,
    onDisk_attempt, onDisk_checked_apply sound measured.base.usable, Except.mapError,
    Catalog.save_eq written, onDisk_writeText]
  cases disk.write (Path.ofString output) (Utf8.encode text) with
  | error e => exact ⟨_, rfl⟩
  | ok after => exact ⟨_, rfl⟩

/-- Once something is measured, a calibration succeeds exactly if the catalog can be written. -/
theorem exists_text_of_measured (measured : Measured arguments disk root output base calibration)
    (found : calibration.isEmpty = false) :
    ∃ text, (calibration.apply base).toToml? = some text ∧
      ((onDisk (calibrate arguments : Command TerminalM Unit) {} disk).exit.code = 0 ↔
        ∃ after, disk.write (Path.ofString output) (Utf8.encode text) = .ok after) := by
  obtain ⟨text, written⟩ := (calibration.apply base).exists_toToml?
  obtain ⟨shown, done⟩ := exists_onDisk_calibrate measured found written
  refine ⟨text, written, ?_⟩
  rw [done]
  cases disk.write (Path.ofString output) (Utf8.encode text) with
  | error e =>
      have failed := Stop.exitCode_ne_zero (.failed (.io e))
      exact ⟨fun success => absurd success failed, nofun⟩
  | ok after => exact ⟨fun _ => ⟨after, rfl⟩, fun _ => rfl⟩

/-- A calibration that succeeds measured something, and it wrote the catalog with the measured
rates. -/
theorem exists_measured_of_onDisk_calibrate {final : Terminal} {after : Disk}
    (ended : onDisk (calibrate arguments : Command TerminalM Unit) {} disk =
      ⟨.ok (), final, after⟩) :
    ∃ root output base calibration, Measured arguments disk root output base calibration ∧
      calibration.isEmpty = false ∧
      ∃ text, (calibration.apply base).toToml? = some text ∧
        disk.write (Path.ofString output) (Utf8.encode text) = .ok after := by
  have done := ended
  unfold calibrate at done
  obtain ⟨root, _, _, required, done⟩ := onDisk_bind_eq_ok_iff.mp done
  obtain ⟨rootAt, rfl, rfl⟩ := find_of_onDisk_required required
  obtain ⟨output, _, _, required, done⟩ := onDisk_bind_eq_ok_iff.mp done
  obtain ⟨outputAt, rfl, rfl⟩ := find_of_onDisk_required required
  rw [onDisk_bind] at done
  obtain ⟨base, starts, done⟩ := andThen_option_catalog done
  obtain ⟨calibration, _, _, measured, done⟩ := onDisk_bind_eq_ok_iff.mp done
  have measured := onDisk_of_onDisk_attempt measured
  obtain ⟨rfl, rfl⟩ := Calibration.kept_of_onDisk_measure measured
  have found : calibration.isEmpty = false := by
    cases nothing : calibration.isEmpty with
    | false => rfl
    | true =>
        simp only [nothing, if_true] at done
        obtain ⟨_, _, _, failed, -⟩ := onDisk_bind_eq_ok_iff.mp done
        cases failed
  have steps : Measured arguments disk root output base calibration :=
    ⟨rootAt, outputAt, starts, measured⟩
  obtain ⟨text, written⟩ := (calibration.apply base).exists_toToml?
  obtain ⟨shown, same⟩ := exists_onDisk_calibrate steps found written
  rw [ended] at same
  refine ⟨root, output, base, calibration, steps, found, text, written, ?_⟩
  cases write : disk.write (Path.ofString output) (Utf8.encode text) with
  | error e =>
      rw [write] at same
      cases same
  | ok after' =>
      rw [write] at same
      cases same
      rfl

/-- Saving a catalog at the end of a command writes all of it, or nothing. -/
theorem keepsOnFailure_save (c : Catalog) (path : Path) (line : String) :
    KeepsOnFailure (do attempt (c.save path); print line : Command TerminalM Unit) := by
  intro terminal disk e final after failed
  obtain ⟨text, written⟩ := c.exists_toToml?
  rw [onDisk_bind, onDisk_attempt, Catalog.save_eq written, onDisk_writeText] at failed
  cases write : disk.write path (Utf8.encode text) with
  | error cause =>
      rw [write] at failed
      cases failed
      rfl
  | ok after' =>
      rw [write] at failed
      cases failed

/-- A calibration that fails leaves the disk as it was. -/
theorem keepsOnFailure_calibrate (arguments : Arguments) :
    KeepsOnFailure (calibrate arguments : Command TerminalM Unit) := by
  -- The catalog is chosen in one of two ways, and then the steps are the same.
  have chosen : ∀ (next : Catalog → Command TerminalM Unit) (asked : Option String),
      (∀ base, KeepsOnFailure (next base)) →
      KeepsOnFailure (match asked with
        | none => pure Catalog.builtin >>= next
        | some path => attempt (Catalog.load (Path.ofString path)) >>= next) := by
    intro next asked later
    cases asked with
    | none => exact .bind (fun _ _ => rfl) later
    | some path => exact .bind (Catalog.keeps_load _).attempt later
  have written : ∀ (c : Catalog) path line,
      KeepsOnFailure (do
        let catalog ← attempt c.checked
        attempt (catalog.save path)
        print line : Command TerminalM Unit) := by
    intro c path line
    exact .bind c.keeps_checked.attempt fun catalog => keepsOnFailure_save catalog path line
  unfold calibrate
  refine .bind (keeps_required _ _) fun root => .bind (keeps_required _ _) fun output =>
    .bind (keeps_option _ _) fun asked => chosen _ asked fun base =>
      .bind (Calibration.keeps_measure _ _).attempt fun calibration => ?_
  dsimp only
  split
  · exact .bind (fun _ _ => rfl) fun _ => .bind (keeps_printAll _) fun _ =>
      .bind (keeps_printAll _) fun _ => written _ _ _
  · exact .bind (keeps_printAll _) fun _ => .bind (keeps_printAll _) fun _ => written _ _ _

end Command

/-- Calibration makes usable catalogs. Measuring below a directory gives a calibration as long as
memory can list the cores, and the disk stays as it is. A usable catalog stays usable with the
measured rates, so its check does not fail. It has the measured rates for the measured traces, its
own rates for all others, and its own mixes. A calibration that measured something succeeds exactly
if this catalog can be written. One that succeeds leaves a file from which the catalog is loaded,
and one that fails leaves the disk as it was. -/
theorem calibrate_usable_catalog :
    (∀ (σ : Type) (reader : LogReader) (root : Path) (state : σ) (disk : Disk) (base : Catalog),
      base.problem? = none →
      (fitsInMemory numberSize reader.coreCount = true → ∀ entries,
        disk.listing root = .ok (some (.directory entries)) → ∃ calibration,
          onDisk (Calibration.measure reader root : Attempt (StateT σ DiskM) Calibration) state
            disk = ⟨.ok calibration, state, disk⟩) ∧
      ∀ (calibration : Calibration) (final : σ) (after : Disk),
        onDisk (Calibration.measure reader root : Attempt (StateT σ DiskM) Calibration) state disk =
          ⟨.ok calibration, final, after⟩ →
        state = final ∧ disk = after ∧ (calibration.apply base).problem? = none ∧
          onDisk ((calibration.apply base).checked : Attempt (StateT σ DiskM) Catalog) final after =
            ⟨.ok (calibration.apply base), final, after⟩ ∧
          (∀ trace, (calibration.apply base).traceIpc? trace =
            (calibration.ipcs.get? trace).or (base.traceIpc? trace)) ∧
          (calibration.apply base).mixes = base.mixes) ∧
    ∀ (disk : Disk) (args : List String),
      let exit := runOn disk ("calibrate" :: args)
      (∀ root output base calibration,
        Command.Measured ⟨args⟩ disk root output base calibration → calibration.isEmpty = false →
        ∃ text, (calibration.apply base).toToml? = some text ∧ (exit.code = 0 ↔
          ∃ after, disk.write (Path.ofString output) (Utf8.encode text) = .ok after)) ∧
      (exit.code = 0 → ∃ root output base calibration,
        Command.Measured ⟨args⟩ disk root output base calibration ∧ calibration.isEmpty = false ∧
        onDisk (Catalog.load (Path.ofString output) : Attempt TerminalM Catalog) {} exit.disk =
          ⟨.ok (calibration.apply base), {}, exit.disk⟩) ∧
      (exit.code ≠ 0 → exit.disk = disk) := by
  constructor
  · intro σ reader root state disk base usable
    constructor
    · intro fits entries listed
      exact Calibration.exists_onDisk_measure fits listed state
    · intro calibration final after measured
      obtain ⟨rfl, rfl⟩ := Calibration.kept_of_onDisk_measure measured
      have sound := Calibration.sound_of_onDisk_measure measured
      exact ⟨rfl, rfl, calibration.problem?_apply sound usable,
        Command.onDisk_checked_apply sound usable state disk,
        base.traceIpc?_withTraceIpcs calibration.ipcs, rfl⟩
  · intro disk args exit
    have exit_eq : exit = (onDisk (Command.calibrate ⟨args⟩) {} disk).exit :=
      runOn_calibrate disk args
    rw [exit_eq]
    refine ⟨fun root output base calibration measured found => ?_, ?_⟩
    · exact Command.exists_text_of_measured measured found
    cases ended : onDisk (Command.calibrate ⟨args⟩ : Command TerminalM Unit) {} disk with
    | mk result shown after =>
        cases result with
        | error stop =>
            have kept := Command.keepsOnFailure_calibrate ⟨args⟩ _ _ _ _ _ ended
            exact ⟨fun success => absurd success stop.exitCode_ne_zero, fun _ => kept⟩
        | ok _ =>
            refine ⟨fun _ => ?_, fun failed => absurd rfl failed⟩
            obtain ⟨root, output, base, calibration, measured, found, text, written, saved⟩ :=
              Command.exists_measured_of_onDisk_calibrate ended
            have top := Calibration.hasDirectory_of_onDisk_measure measured.calibration
            have sound := Calibration.sound_of_onDisk_measure measured.calibration
            exact ⟨root, output, base, calibration, measured, found,
              Catalog.onDisk_load_of_read (calibration.problem?_apply sound measured.base.usable)
                written (Disk.readText_of_write top saved) _⟩

section Sample

/-- The arguments to calibrate with the logs. -/
def sampleCalibrateArgs : List String :=
  ["--root", "r", "--output", "o"]

/-- What the logs tell of the trace that runs alone. -/
def sampleCalibration : Calibration where
  ipcs := NameMap.empty.insert "548_old.22002" 1.5

theorem onDisk_measure_sample (terminal : Terminal) :
    onDisk (Calibration.measure ⟨1, defaultFaultMarker⟩ (Path.ofString "r") :
      Attempt TerminalM Calibration) terminal (sampleDisk []) =
        ⟨.ok sampleCalibration, terminal, sampleDisk []⟩ := by
  have listed : Calibration.logsOn (sampleDisk []) (Path.ofString "r") = .ok samplePaths := by
    have discovered := Calibration.onDisk_discover (Path.ofString "r") (sampleDisk []) terminal
    rw [onDisk_discover_sample, Ended.mk.injEq] at discovered
    exact discovered.1.symm
  have read : Calibration.ofFiles ⟨1, defaultFaultMarker⟩ (sampleDisk []) samplePaths =
      .ok sampleCalibration := by
    decide +kernel
  rw [Calibration.onDisk_measure, listed, Except.bind, read]
  rfl

/-- What a calibration with the logs works with. -/
theorem measured_sample : Command.Measured ⟨sampleCalibrateArgs⟩ (sampleDisk []) "r" "o"
    Catalog.builtin sampleCalibration where
  rootAt := by decide
  outputAt := by decide
  base := by
    have absent : Arguments.find ⟨sampleCalibrateArgs⟩ "--catalog" = .absent := by decide
    simp only [Command.StartsFrom, absent]
  calibration := onDisk_measure_sample {}

end Sample

/-- The rate of the trace that ran alone is put into the built-in catalog, and without an output
nothing is written. -/
theorem calibrate_usable_catalog_sample :
    let exit := runOn (sampleDisk []) ("calibrate" :: sampleCalibrateArgs)
    let refused := runOn (sampleDisk []) ["calibrate", "--root", "r"]
    Catalog.builtin.problem? = none ∧ fitsInMemory numberSize 1 = true ∧
    (∃ entries, (sampleDisk []).listing (Path.ofString "r") = .ok (some (.directory entries))) ∧
    (∃ calibration, onDisk (Calibration.measure ⟨1, defaultFaultMarker⟩ (Path.ofString "r") :
      Attempt TerminalM Calibration) {} (sampleDisk []) = ⟨.ok calibration, {}, sampleDisk []⟩) ∧
    (sampleCalibration.apply Catalog.builtin).problem? = none ∧
    (sampleCalibration.apply Catalog.builtin).traceIpc? "548_old.22002" = some 1.5 ∧
    exit.code = 0 ∧
    onDisk (Catalog.load (Path.ofString "o") : Attempt TerminalM Catalog) {} exit.disk =
      ⟨.ok (sampleCalibration.apply Catalog.builtin), {}, exit.disk⟩ ∧
    refused.code ≠ 0 ∧ refused.disk = sampleDisk [] := by
  intro exit refused
  obtain ⟨measures, runs⟩ := calibrate_usable_catalog
  obtain ⟨gives, measured⟩ := measures Terminal ⟨1, defaultFaultMarker⟩ (Path.ofString "r") {}
    (sampleDisk []) Catalog.builtin Catalog.problem?_builtin
  obtain ⟨-, -, usable, -, rates, -⟩ := measured sampleCalibration {} (sampleDisk [])
    (onDisk_measure_sample {})
  obtain ⟨succeeds, loads, -⟩ := runs (sampleDisk []) sampleCalibrateArgs
  obtain ⟨text, -, succeeds⟩ :=
    succeeds "r" "o" Catalog.builtin sampleCalibration measured_sample rfl
  have success : exit.code = 0 :=
    succeeds.mpr ⟨sampleDisk [(Utf8.encode "o", .file (Utf8.encode text))], rfl⟩
  obtain ⟨root, output, base, calibration, steps, -, loaded⟩ := loads success
  have failed : refused.code ≠ 0 := by
    have code : refused.code = 1 := rfl
    rw [code]
    decide
  have rate : (sampleCalibration.apply Catalog.builtin).traceIpc? "548_old.22002" = some 1.5 := by
    rw [rates]
    rfl
  obtain rfl : "r" = root := OptionValue.value.inj (measured_sample.rootAt.symm.trans steps.rootAt)
  obtain rfl : "o" = output :=
    OptionValue.value.inj (measured_sample.outputAt.symm.trans steps.outputAt)
  obtain rfl : base = Catalog.builtin := steps.base
  have same := (onDisk_measure_sample {}).symm.trans steps.calibration
  rw [Ended.mk.injEq, Except.ok.injEq] at same
  obtain rfl : sampleCalibration = calibration := same.1
  exact ⟨Catalog.problem?_builtin, by decide, ⟨_, listing_sample⟩,
    gives (by decide) _ listing_sample, usable, rate, success, loaded, failed,
    (runs (sampleDisk []) ["--root", "r"]).2.2 failed⟩

end SpeedupStudy
