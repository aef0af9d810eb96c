/-
# Faulty options

An option is looked up when its turn comes. A calibration and a normalization look up all of their
options before they write anything, and a collection does so with most of its options. But it looks
up where the normalized table goes after it has written the result table, and where the report goes
after it has written both tables. So these two may be faulty and the tables are there nevertheless.
-/

import SpeedupStudy.Proofs.CommandLine.Calibrating

namespace SpeedupStudy

variable {σ : Type}

theorem Config.keeps_checked (c : Config) :
    Keeps (c.checked : Attempt (StateT σ DiskM) Config) := by
  intro state disk
  rw [checked]
  cases c.problem? <;> rfl

theorem Config.keeps_loadToml (path : Path) :
    Keeps (loadToml path : Attempt (StateT σ DiskM) Config) := by
  intro state disk
  rw [loadToml, onDisk_bind, onDisk_readText]
  cases disk.readText path with
  | error e => rfl
  | ok text =>
      rw [Except.mapError, Ended.andThen_ok, onDisk_bind]
      cases ofToml? text with
      | none => rfl
      | some c =>
          rw [onDisk_require_some, Ended.andThen_ok]
          exact c.keeps_checked state disk

theorem Config.keeps_loadCatalog (c : Config) :
    Keeps (c.loadCatalog : Attempt (StateT σ DiskM) Catalog) := by
  unfold loadCatalog
  cases c.catalogPath with
  | none => exact fun _ _ => rfl
  | some path => exact Catalog.keeps_load (Path.ofString path)

/-- Whether a command ended early because of how it was asked for: an option has no value, or an
option or a path that must be there is not. -/
def Stop.IsUsage : Stop → Prop
  | failed _ => False
  | _ => True

namespace Command

variable {arguments : Arguments} {disk : Disk}

/-- The value of an option, where the arguments give it one. -/
def valueOf? (arguments : Arguments) (name : String) : Option String :=
  match arguments.find name with
  | .value text => some text
  | _ => none

/-- A part of a command that gave an option only looked it up. -/
theorem eq_valueOf?_of_onDisk_option {name : String} {asked : Option String}
    {terminal final : Terminal} {after : Disk}
    (done : onDisk (option arguments name : Command TerminalM (Option String)) terminal disk =
      ⟨.ok asked, final, after⟩) : asked = valueOf? arguments name := by
  rw [onDisk_option] at done
  unfold valueOf?
  cases found : arguments.find name with
  | absent =>
      rw [found] at done
      cases done
      rfl
  | missing =>
      rw [found] at done
      cases done
  | value text =>
      rw [found] at done
      cases done
      rfl

/-- Looking up an option fails only where it has no value. -/
theorem onlyReads_option (arguments : Arguments) (name : String) :
    OnlyReads (option arguments name : Command TerminalM (Option String))
      fun stop => arguments.find name = .missing ∧ stop = .valueMissing name where
  keeps := keeps_option arguments name
  stops terminal disk stop final after failed := by
    rw [onDisk_option] at failed
    cases found : arguments.find name with
    | absent => simp [found] at failed
    | value text => simp [found] at failed
    | missing =>
        rw [found] at failed
        cases failed
        exact ⟨rfl, rfl⟩

/-- An option that must be there makes a command fail where it has no value or is not there. -/
theorem onlyReads_required (arguments : Arguments) (name : String) :
    OnlyReads (required arguments name : Command TerminalM String) fun stop =>
      arguments.find name = .missing ∧ stop = .valueMissing name ∨
        arguments.find name = .absent ∧ stop = .optionMissing name where
  keeps := keeps_required arguments name
  stops terminal disk stop final after failed := by
    rw [onDisk_required] at failed
    cases found : arguments.find name with
    | value text => simp [found] at failed
    | missing =>
        rw [found] at failed
        cases failed
        exact .inl ⟨rfl, rfl⟩
    | absent =>
        rw [found] at failed
        cases failed
        exact .inr ⟨rfl, rfl⟩

theorem onlyReads_pure {α : Type} (a : α) (stops : Stop → Prop) :
    OnlyReads (pure a : Command TerminalM α) stops :=
  ⟨fun _ _ => rfl, nofun⟩

theorem onlyReads_print (line : String) (stops : Stop → Prop) :
    OnlyReads (print line : Command TerminalM Unit) stops :=
  ⟨fun _ _ => rfl, nofun⟩

theorem onlyReads_printAll (lines : List String) (stops : Stop → Prop) :
    OnlyReads (printAll lines : Command TerminalM Unit) stops where
  keeps := keeps_printAll lines
  stops terminal disk stop final after failed := by
    rw [onDisk_printAll] at failed
    cases failed

/-- A part of a command that may fail ends it with that failure. -/
theorem exists_failed_of_onDisk_attempt {α : Type} {part : Attempt TerminalM α}
    {terminal final : Terminal} {disk after : Disk} {stop : Stop}
    (failed : onDisk (attempt part) terminal disk = ⟨.error stop, final, after⟩) :
    ∃ failure, stop = .failed failure := by
  rw [onDisk_attempt] at failed
  generalize onDisk part terminal disk = ended at failed
  obtain ⟨result, between, left⟩ := ended
  cases result with
  | error failure =>
      cases failed
      exact ⟨failure, rfl⟩
  | ok a => cases failed

theorem onlyReads_attempt {α : Type} {part : Attempt TerminalM α} (keeps : Keeps part)
    {stops : Stop → Prop} (failed : ∀ failure, stops (.failed failure)) :
    OnlyReads (attempt part) stops where
  keeps := keeps.attempt
  stops terminal disk stop final after done := by
    obtain ⟨failure, rfl⟩ := exists_failed_of_onDisk_attempt done
    exact failed failure

/-- The options that a collection looks up before it writes its result table. -/
def optionsBeforeTable : List String :=
  ["--root", "--config", "--type", "--catalog", "--threads", "--output"]

/-- Whether a collection ended early because of one of these options, if because of any. -/
def StopsEarly (arguments : Arguments) (stop : Stop) : Prop :=
  stop.IsUsage →
    (∃ name ∈ optionsBeforeTable, arguments.find name = .missing ∧ stop = .valueMissing name) ∨
      arguments.find "--root" = .absent ∧ stop = .optionMissing "--root"

theorem stopsEarly_failed (arguments : Arguments) (failure : Failure) :
    StopsEarly arguments (.failed failure) :=
  False.elim

theorem onlyReads_earlyOption {name : String} (early : name ∈ optionsBeforeTable) :
    OnlyReads (option arguments name : Command TerminalM (Option String)) (StopsEarly arguments) :=
  (onlyReads_option arguments name).mono fun _ stopped _ => .inl ⟨name, early, stopped⟩

theorem onlyReads_root :
    OnlyReads (required arguments "--root" : Command TerminalM String) (StopsEarly arguments) := by
  refine (onlyReads_required arguments "--root").mono fun stop stopped _ => ?_
  exact stopped.imp_left fun missing => ⟨"--root", List.mem_cons_self, missing⟩

/-- Making a configuration of the options writes nothing, and reads no more than the file that they
name. -/
theorem onlyReads_configOf :
    OnlyReads (configOf arguments : Command TerminalM Config) (StopsEarly arguments) := by
  have loaded : ∀ path, OnlyReads (attempt (Config.loadToml path) : Command TerminalM Config)
      (StopsEarly arguments) := by
    intro path
    exact onlyReads_attempt (Config.keeps_loadToml path) (stopsEarly_failed arguments)
  have checked : ∀ config : Config, OnlyReads (attempt config.checked : Command TerminalM Config)
      (StopsEarly arguments) := by
    intro config
    exact onlyReads_attempt config.keeps_checked (stopsEarly_failed arguments)
  have failing : ∀ {α : Type} (failure : Failure),
      OnlyReads (fail failure : Command TerminalM α) (StopsEarly arguments) := by
    intro α failure
    refine ⟨fun _ _ => rfl, fun terminal disk stop final after failed => ?_⟩
    cases failed
    exact stopsEarly_failed arguments failure
  unfold configOf
  -- Whatever comes of an option, the rest of the way looks up the next one or checks the result.
  repeat' first
    | split
    | exact checked _
    | exact loaded _
    | exact failing _
    | exact onlyReads_pure _ _
    | exact onlyReads_print _ _
    | exact onlyReads_earlyOption (by decide)
    | refine OnlyReads.bind ?_ fun _ => ?_

/-- What a collection has found when it comes to its result table: its configuration and catalog,
and what the pass over the logs below its root collected on the disk. -/
structure Collected (arguments : Arguments) (disk : Disk) (config : Config) (catalog : Catalog)
    (output : Collection) : Prop where
  configured : ∃ terminal shown,
    onDisk (configOf arguments : Command TerminalM Config) terminal disk = ⟨.ok config, shown, disk⟩
  loaded : ∃ terminal shown,
    onDisk (config.loadCatalog : Attempt TerminalM Catalog) terminal disk =
      ⟨.ok catalog, shown, disk⟩
  passed : ∃ root reporter terminal shown, arguments.find "--root" = .value root ∧
    onDisk (Pass.collect ⟨config, catalog⟩ reporter (Path.ofString root) :
      Attempt TerminalM Collection) terminal disk = ⟨.ok output, shown, disk⟩

/-- The result table of a collection was written where its options say. -/
def WroteTable (arguments : Arguments) (disk : Disk) (config : Config) (output : Collection)
    (after : Disk) : Prop :=
  let table := (valueOf? arguments "--output").getD defaultResultTable
  disk.writeWithParents (Path.ofString table)
    (ResultTable.render config.collection.columns output).1 = (.ok (), after)

/-- The normalized table of a collection was written if its options ask for one. -/
def WroteNormalized (arguments : Arguments) (disk : Disk) (output : Collection) (after : Disk) :
    Prop :=
  match valueOf? arguments "--normalized" with
  | none => after = disk
  | some path =>
    disk.writeWithParents (Path.ofString path)
      (NormalizedTable.render (Normalization.ofRows output.rows).groups) = (.ok (), after)

/-- What a collection on a disk leaves when it ends because of how its options are given. Most of
them it looks up before it writes anything, but the option for the normalized table comes after the
result table, and the one for the report comes after both tables. -/
inductive UsageError (arguments : Arguments) (disk : Disk) : Stop → Disk → Prop where
  | rootMissing (absent : arguments.find "--root" = .absent) :
      UsageError arguments disk (.optionMissing "--root") disk
  | beforeTable {name : String} (early : name ∈ optionsBeforeTable)
      (missing : arguments.find name = .missing) :
      UsageError arguments disk (.valueMissing name) disk
  | afterTable {config : Config} {catalog : Catalog} {output : Collection} {after : Disk}
      (collected : Collected arguments disk config catalog output)
      (table : WroteTable arguments disk config output after)
      (missing : arguments.find "--normalized" = .missing) :
      UsageError arguments disk (.valueMissing "--normalized") after
  | afterTables {config : Config} {catalog : Catalog} {output : Collection}
      {between after : Disk} (collected : Collected arguments disk config catalog output)
      (table : WroteTable arguments disk config output between)
      (normalized : WroteNormalized arguments between output after)
      (missing : arguments.find "--summary" = .missing) :
      UsageError arguments disk (.valueMissing "--summary") after

theorem UsageError.of_stopsEarly {stop : Stop} (early : StopsEarly arguments stop)
    (usage : stop.IsUsage) : UsageError arguments disk stop disk := by
  rcases early usage with ⟨name, mem, missing, rfl⟩ | ⟨absent, rfl⟩
  · exact .beforeTable mem missing
  · exact .rootMissing absent

section Failing

variable {α : Type} {property : Stop → Disk → Prop}

theorem failsOn_attempt (part : Attempt TerminalM α) (disk : Disk)
    (failed : ∀ failure after, property (.failed failure) after) :
    FailsOn disk (attempt part) property := by
  intro terminal stop final after done
  obtain ⟨failure, rfl⟩ := exists_failed_of_onDisk_attempt done
  exact failed failure after

/-- After a part that never fails and only reads, the rest fails on the same disk. -/
theorem failsOn_after {β : Type} {part : Command TerminalM β} {next : β → Command TerminalM α}
    (reads : ∀ stops, OnlyReads part stops) (later : ∀ b, FailsOn disk (next b) property) :
    FailsOn disk (part >>= next) property :=
  .bind_of_onlyReads (reads fun _ => False) (fun _ => False.elim) fun _ b _ _ => later b

end Failing

/-- A collection that asked for a report without saying where leaves its tables. -/
theorem failsOn_summary {config : Config} {catalog : Catalog} {output : Collection}
    {between after : Disk} (collected : Collected arguments disk config catalog output)
    (table : WroteTable arguments disk config output between)
    (normalized : WroteNormalized arguments between output after)
    (counts : Option NormalizationCounts) :
    FailsOn after (do
      match ← option arguments "--summary" with
      | none => pure ()
      | some path =>
        attempt (Report.save ⟨output.summary, counts, config⟩ (Path.ofString path))
        print ("✅ Run report: " ++ path) : Command TerminalM Unit)
      fun stop left => stop.IsUsage → UsageError arguments disk stop left := by
  refine .bind_of_onlyReads (onlyReads_option arguments "--summary") ?_ fun _ asked _ _ => ?_
  · rintro _ ⟨missing, rfl⟩ _
    exact .afterTables collected table normalized missing
  · cases asked with
    | none => exact nofun
    | some path =>
        exact .bind (failsOn_attempt _ _ fun _ _ => False.elim) fun _ _ _ _ _ => nofun

/-- Wherever a collection ends because of how its options are given, it has written no more than its
tables. -/
theorem failsOn_collect (arguments : Arguments) (disk : Disk) :
    FailsOn disk (collect arguments : Command TerminalM Unit)
      fun stop after => stop.IsUsage → UsageError arguments disk stop after := by
  have early := fun stop => @UsageError.of_stopsEarly arguments disk stop
  unfold collect
  refine .bind_of_onlyReads onlyReads_root early fun terminal root _ rooted => ?_
  obtain ⟨rootAt, -, -⟩ := find_of_onDisk_required rooted
  refine .bind_of_onlyReads onlyReads_configOf early fun _ config _ configured => ?_
  have loads := onlyReads_attempt (Config.keeps_loadCatalog config) (stopsEarly_failed arguments)
  refine .bind_of_onlyReads loads early fun _ catalog _ loaded => ?_
  refine failsOn_after (onlyReads_print _) fun _ => ?_
  refine .bind (failsOn_attempt _ _ fun _ _ => False.elim) fun _ output _ middle passed => ?_
  have passed := onDisk_of_onDisk_attempt passed
  have usable := gives_configOf arguments _ _ _ _ _ configured
  have hasCores : config.collection.coreCount ≠ 0 := by
    intro none
    simp [Config.problem?, CollectionConfig.problem?, none] at usable
  obtain ⟨-, rfl, -⟩ := Pass.scored_of_onDisk_collect (exists_observing _) hasCores passed
  have collected : Collected arguments middle config catalog output :=
    ⟨⟨_, _, configured⟩, ⟨_, _, onDisk_of_onDisk_attempt loaded⟩, root, _, _, _, rootAt, passed⟩
  refine failsOn_after (onlyReads_printAll _) fun _ => ?_
  refine .bind_of_onlyReads (onlyReads_earlyOption (by decide)) early fun _ asked _ looked => ?_
  obtain rfl := eq_valueOf?_of_onDisk_option looked
  refine .bind (failsOn_attempt _ _ fun _ _ => False.elim) fun _ _ _ first saved => ?_
  -- From here on the result table is on the disk, whatever comes of the other options.
  have table : WroteTable arguments middle config output first :=
    writeWithParents_of_onDisk_save (onDisk_of_onDisk_attempt saved)
  refine failsOn_after (onlyReads_print _) fun _ => ?_
  refine .bind_of_onlyReads (onlyReads_option arguments "--normalized") ?_
    fun _ asked _ looked => ?_
  · rintro _ ⟨missing, rfl⟩ _
    exact .afterTable collected table missing
  · have asked_eq := eq_valueOf?_of_onDisk_option looked
    cases asked with
    | none =>
        have normalized : WroteNormalized arguments first output first := by
          rw [WroteNormalized, ← asked_eq]
        exact failsOn_after (onlyReads_pure none) (failsOn_summary collected table normalized)
    | some path =>
        refine .bind (failsOn_attempt _ _ fun _ _ => False.elim) fun _ _ _ second saved => ?_
        have normalized : WroteNormalized arguments first output second := by
          rw [WroteNormalized, ← asked_eq]
          exact writeWithParents_of_onDisk (onDisk_of_onDisk_attempt saved)
        refine failsOn_after (onlyReads_print _) fun _ => ?_
        exact failsOn_after (onlyReads_pure _) (failsOn_summary collected table normalized)

theorem failsOn_normalize (arguments : Arguments) (disk : Disk) :
    FailsOn disk (normalize arguments : Command TerminalM Unit)
      fun stop after => stop.IsUsage → after = disk := by
  unfold normalize
  refine .bind_of_onlyReads (onlyReads_required arguments "--input") (fun _ _ _ => rfl)
    fun _ input _ _ => ?_
  refine .bind_of_onlyReads (onlyReads_option arguments "--output") (fun _ _ _ => rfl)
    fun _ output _ _ => ?_
  refine .bind (failsOn_attempt _ _ fun _ _ => False.elim) fun _ rows _ middle _ => ?_
  refine .bind (failsOn_attempt _ _ fun _ _ => False.elim) fun _ _ _ written _ => ?_
  exact failsOn_after (onlyReads_printAll _) fun _ => fun _ _ _ _ => nofun

end Command

theorem Stop.exitCode_of_isUsage {stop : Stop} (usage : stop.IsUsage) : stop.exitCode = 1 := by
  cases stop with
  | failed failure => exact usage.elim
  | _ => rfl

/-- How the program exits after a command that was asked for in a faulty way. -/
theorem exit_of_isUsage {command : Command TerminalM Unit} {stop : Stop} {terminal : Terminal}
    {disk after : Disk} (usage : stop.IsUsage)
    (ended : onDisk command {} disk = ⟨.error stop, terminal, after⟩) :
    (onDisk command {} disk).exit =
      ⟨1, { terminal with err := terminal.err ++ [stop.line] }, after⟩ := by
  rw [ended, Ended.exit, Stop.exitCode_of_isUsage usage]

/-- What faulty options leave on the disk. A collection, a normalization or a calibration that ends
because of how its options are given makes the program exit with one and name the option. A
normalization and a calibration have then written nothing. So has a collection whose root or another
option that it looks up before its result table is faulty. Where the option for the normalized table
has no value, the result table of what was collected is written, and where the one for the report
has none, so is the normalized table that was asked for. -/
theorem faulty_options_leave (disk : Disk) (args : List String) :
    (∀ (stop : Stop) (terminal : Terminal) (after : Disk),
      onDisk (Command.collect ⟨args⟩) {} disk = ⟨.error stop, terminal, after⟩ → stop.IsUsage →
      runOn disk ("collect" :: args) =
          ⟨1, { terminal with err := terminal.err ++ [stop.line] }, after⟩ ∧
        Command.UsageError ⟨args⟩ disk stop after ∧
        (stop ≠ .valueMissing "--normalized" → stop ≠ .valueMissing "--summary" → after = disk)) ∧
    (∀ (stop : Stop) (terminal : Terminal) (after : Disk),
      onDisk (Command.normalize ⟨args⟩) {} disk = ⟨.error stop, terminal, after⟩ → stop.IsUsage →
      runOn disk ("normalize" :: args) =
        ⟨1, { terminal with err := terminal.err ++ [stop.line] }, disk⟩) ∧
    (∀ (stop : Stop) (terminal : Terminal) (after : Disk),
      onDisk (Command.calibrate ⟨args⟩) {} disk = ⟨.error stop, terminal, after⟩ → stop.IsUsage →
      runOn disk ("calibrate" :: args) =
        ⟨1, { terminal with err := terminal.err ++ [stop.line] }, disk⟩) := by
  refine ⟨?_, ?_, ?_⟩
  · intro stop terminal after ended usage
    have left := Command.failsOn_collect ⟨args⟩ disk _ _ _ _ ended usage
    refine ⟨(runOn_collect disk args).trans (exit_of_isUsage usage ended), left, ?_⟩
    intro notNormalized notSummary
    cases left with
    | rootMissing absent => rfl
    | beforeTable early missing => rfl
    | afterTable collected table missing => exact absurd rfl notNormalized
    | afterTables collected table normalized missing => exact absurd rfl notSummary
  · intro stop terminal after ended usage
    obtain rfl := Command.failsOn_normalize ⟨args⟩ disk _ _ _ _ ended usage
    exact (runOn_normalize _ args).trans (exit_of_isUsage usage ended)
  · intro stop terminal after ended usage
    obtain rfl := Command.keepsOnFailure_calibrate ⟨args⟩ _ _ _ _ _ ended
    exact (runOn_calibrate _ args).trans (exit_of_isUsage usage ended)

section Sample

/-- A disk with an empty directory for the logs and some other entries. -/
def emptyStudy (others : List (Bytes × Node)) : Disk :=
  ⟨.directory ((Utf8.encode "r", .directory []) :: others)⟩

/-- The arguments to collect the logs with an option at the end that has no value. -/
def lateArguments (name : String) : List String :=
  ["--root", "r", "--output", "t", name]

theorem onDisk_collect_emptyStudy (terminal : Terminal) :
    onDisk (Pass.collect ⟨{}, Catalog.builtin⟩ Reporter.silent (Path.ofString "r") :
      Attempt TerminalM Collection) terminal (emptyStudy []) =
        ⟨.ok (Pass.results ⟨{}, Catalog.builtin⟩ []), terminal, emptyStudy []⟩ := by
  have resolved : (emptyStudy []).top.resolve false (Path.ofString "r") =
      .ok (.present [Utf8.encode "r"] (.directory [])) := rfl
  have noLogs : Calibration.logsOn (emptyStudy []) (Path.ofString "r") =
      .ok (([] : List (Bytes × Bytes)).map fun file => (Path.ofString "r").join file.1) :=
    Calibration.logsOn_of_files resolved (by simp) .nil
  rw [Pass.collect, onDisk_bind, Calibration.onDisk_discover, noLogs]
  rfl

/-- A collection in which the last option has no value writes its result table before it notices. -/
theorem exists_onDisk_collect_late (name : String) (late : name ∈ ["--normalized", "--summary"]) :
    ∃ shown table, onDisk (Command.collect ⟨lateArguments name⟩ : Command TerminalM Unit) {}
      (emptyStudy []) = ⟨.error (.valueMissing name), ⟨shown, []⟩,
        emptyStudy [(Utf8.encode "t", .file table)]⟩ := by
  have rootAt : Arguments.find ⟨lateArguments name⟩ "--root" = .value "r" := rfl
  have outputAt : Arguments.find ⟨lateArguments name⟩ "--output" = .value "t" := rfl
  have absent : ∀ option ∈ ["--config", "--type", "--catalog", "--threads"],
      Arguments.find ⟨lateArguments name⟩ option = .absent := by
    rcases List.mem_pair.mp late with rfl | rfl <;> decide
  have configured : onDisk (Command.configOf ⟨lateArguments name⟩ : Command TerminalM Config) {}
      (emptyStudy []) = ⟨.ok {}, {}, emptyStudy []⟩ := by
    simp only [Command.configOf, onDisk_bind, onDisk_option, absent, List.mem_cons, true_or,
      or_true, Ended.andThen_ok, onDisk_pure]
    rfl
  have loaded (terminal : Terminal) : onDisk (Command.attempt (Config.loadCatalog {}) :
      Command TerminalM Catalog) terminal (emptyStudy []) =
        ⟨.ok Catalog.builtin, terminal, emptyStudy []⟩ := rfl
  have quiet : (if (Config.execution {}).reportProgress then Command.consoleReporter
      else Reporter.silent : Reporter TerminalM) = Reporter.silent := rfl
  have written (table : Bytes) : (emptyStudy []).writeWithParents (Path.ofString "t") table =
      (.ok (), emptyStudy [(Utf8.encode "t", .file table)]) := rfl
  have found : Pass.outcomes ⟨{}, Catalog.builtin⟩ (emptyStudy []) [] = .ok [] := rfl
  have scored := Pass.scored_results found (by decide)
  have listed : ResultTable.canListHeader (Config.collection {}).columns
      (Pass.results ⟨{}, Catalog.builtin⟩ []).coreCount = true := by
    show ResultTable.canListHeader .perCore 16 = true
    decide
  unfold Command.collect
  simp only [onDisk_bind, onDisk_required, rootAt, configured, loaded, Ended.andThen_ok,
    onDisk_print, quiet, onDisk_attempt, onDisk_collect_emptyStudy, Except.mapError,
    onDisk_printAll, onDisk_option, outputAt, Option.getD_some, onDisk_save scored listed, written]
  rcases List.mem_pair.mp late with rfl | rfl
  · have missing : Arguments.find ⟨lateArguments "--normalized"⟩ "--normalized" = .missing := by
      decide
    simp only [missing]
    exact ⟨_, _, rfl⟩
  · have unasked : Arguments.find ⟨lateArguments "--summary"⟩ "--normalized" = .absent := by decide
    have missing : Arguments.find ⟨lateArguments "--summary"⟩ "--summary" = .missing := by decide
    simp only [unasked, missing, Ended.andThen_ok, onDisk_pure, onDisk_bind, onDisk_option]
    exact ⟨_, _, rfl⟩

end Sample

/-- On an empty study, faulty options of the commands leave nothing but the result table of the
collection that was to be normalized. -/
theorem faulty_options_leave_emptyStudy :
    runOn (emptyStudy []) ["collect", "--output", "t"] =
        ⟨1, ⟨[], ["Error: missing required --root"]⟩, emptyStudy []⟩ ∧
      runOn (emptyStudy []) ["collect", "--root", "r", "--threads", "--output"] =
        ⟨1, ⟨[], ["Error: --threads requires a value"]⟩, emptyStudy []⟩ ∧
      (∃ shown table, runOn (emptyStudy []) ("collect" :: lateArguments "--normalized") =
          ⟨1, ⟨shown, ["Error: --normalized requires a value"]⟩,
            emptyStudy [(Utf8.encode "t", .file table)]⟩ ∧
        Command.UsageError ⟨lateArguments "--normalized"⟩ (emptyStudy [])
          (.valueMissing "--normalized") (emptyStudy [(Utf8.encode "t", .file table)])) ∧
      runOn (emptyStudy []) ["normalize", "--input", "t", "--output"] =
        ⟨1, ⟨[], ["Error: --output requires a value"]⟩, emptyStudy []⟩ ∧
      runOn (emptyStudy []) ["calibrate", "--root", "r"] =
        ⟨1, ⟨[], ["Error: missing required --output"]⟩, emptyStudy []⟩ := by
  have collects := fun args => (faulty_options_leave (emptyStudy []) args).1
  have normalizes := fun args => (faulty_options_leave (emptyStudy []) args).2.1
  have calibrates := fun args => (faulty_options_leave (emptyStudy []) args).2.2
  refine ⟨?_, ?_, ?_, ?_, ?_⟩
  · exact (collects _ (.optionMissing "--root") {} (emptyStudy []) rfl trivial).1
  · exact (collects _ (.valueMissing "--threads") {} (emptyStudy []) rfl trivial).1
  · obtain ⟨shown, table, ended⟩ := exists_onDisk_collect_late "--normalized" (by decide)
    obtain ⟨exits, left, -⟩ := collects _ _ _ _ ended trivial
    exact ⟨shown, table, exits, left⟩
  · exact normalizes _ (.valueMissing "--output") {} (emptyStudy []) rfl trivial
  · exact calibrates _ (.optionMissing "--output") {} (emptyStudy []) rfl trivial

/-- Options without a value may be noticed too late: the program exits with one, and there is a
result table that was not there before. -/
theorem faulty_options_leave_table :
    (∃ shown table, runOn (emptyStudy []) ("collect" :: lateArguments "--normalized") =
      ⟨1, ⟨shown, ["Error: --normalized requires a value"]⟩,
        emptyStudy [(Utf8.encode "t", .file table)]⟩) ∧
    (∃ shown table, runOn (emptyStudy []) ("collect" :: lateArguments "--summary") =
      ⟨1, ⟨shown, ["Error: --summary requires a value"]⟩,
        emptyStudy [(Utf8.encode "t", .file table)]⟩) ∧
    ∀ table, emptyStudy [(Utf8.encode "t", .file table)] ≠ emptyStudy [] := by
  refine ⟨?_, ?_, ?_⟩
  · obtain ⟨shown, table, ended⟩ := exists_onDisk_collect_late "--normalized" (by decide)
    have usage : Stop.IsUsage (.valueMissing "--normalized") := trivial
    exact ⟨shown, table, (runOn_collect _ _).trans (exit_of_isUsage usage ended)⟩
  · obtain ⟨shown, table, ended⟩ := exists_onDisk_collect_late "--summary" (by decide)
    have usage : Stop.IsUsage (.valueMissing "--summary") := trivial
    exact ⟨shown, table, (runOn_collect _ _).trans (exit_of_isUsage usage ended)⟩
  · intro table same
    simp [emptyStudy] at same

end SpeedupStudy
