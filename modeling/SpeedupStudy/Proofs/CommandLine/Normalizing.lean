/-
# From a written table

The result table of a collection holds all that its normalized table was made from. As long as no
file was written over, `normalize` finds the table as it was written, reads the same rows back and
makes the same normalized table of them.
-/

import SpeedupStudy.Proofs.CommandLine.Collecting

namespace SpeedupStudy

section Normalizing

variable {disk : Disk} {text : Bytes} {rows : List Measurement}

theorem onDisk_load {σ : Type} {path : Path} (found : disk.read path = .ok text) (state : σ) :
    onDisk (ResultTable.load path : Attempt (StateT σ DiskM) (List Measurement)) state disk =
      ⟨ResultTable.read text, state, disk⟩ := by
  have opened : onDisk (ExceptT.lift (Files.read path) :
      Attempt (StateT σ DiskM) (Except IoError Bytes)) state disk = ⟨.ok (.ok text), state, disk⟩ := by
    rw [← found]
    rfl
  rw [ResultTable.load, onDisk_bind, opened]
  rfl

/-- Normalizing a table that can be read writes the normalized table, or fails as the writing
does. -/
theorem onDisk_normalize {arguments : Arguments} {input output : String}
    (inputAt : arguments.find "--input" = .value input)
    (outputAt : arguments.find "--output" = .value output)
    (found : disk.read (Path.ofString input) = .ok text) (read : ResultTable.read text = .ok rows)
    (terminal : Terminal) :
    ∃ shown, onDisk (Command.normalize arguments) terminal disk =
      let written := disk.writeWithParents (Path.ofString output)
        (NormalizedTable.render (Normalization.ofTable rows).groups)
      ⟨written.1.mapError fun cause => .failed (.io cause), shown, written.2⟩ := by
  have required : onDisk (Command.required arguments "--input" : Command TerminalM String) terminal
      disk = ⟨.ok input, terminal, disk⟩ := by
    rw [Command.required, onDisk_bind, onDisk_option, inputAt]
    rfl
  unfold Command.normalize NormalizedTable.save
  simp only [onDisk_bind, required, onDisk_option, outputAt, Ended.andThen_ok, onDisk_attempt,
    onDisk_load found, read, Except.mapError, onDisk_writeWithParents, Option.getD_some]
  generalize disk.writeWithParents _ _ = attempt
  obtain ⟨result, after⟩ := attempt
  cases result with
  | error e => exact ⟨terminal, rfl⟩
  | ok _ => exact ⟨_, rfl⟩

end Normalizing

section Reading

variable {arguments : Arguments} {table normalized : Path} {columns : ValueColumns}
  {output : Collection} {start first second final : Disk}

/-- After the tables were written, only the report may have been written to. -/
theorem Writes.grows_report
    (writes : Writes arguments table normalized columns output start first second final)
    (root : second.top.HasDirectory []) :
    ∃ written, Node.Grows second.top final.top written ∧ ∀ place ∈ written, ∃ summary,
      arguments.find "--summary" = .value summary ∧
        final.fileAt? (Path.ofString summary) = some place := by
  rcases writes.report with ⟨rfl, -⟩ | ⟨summary, contents, asked, written⟩
  · exact ⟨[], .refl _ _, nofun⟩
  · obtain ⟨place, holds, grows⟩ := Disk.holds_of_writeWithParents root written
    refine ⟨[place], grows, fun other mem => ⟨summary, asked, ?_⟩⟩
    rw [List.mem_singleton.mp mem]
    exact holds.fileAt?

/-- Tables and a report in files of their own are all there at the end. -/
theorem Writes.read
    (writes : Writes arguments table normalized columns output start first second final)
    (apart : ¬ final.SameFile table normalized)
    (apartReport : ∀ summary, arguments.find "--summary" = .value summary →
      ¬ final.SameFile table (Path.ofString summary) ∧
        ¬ final.SameFile normalized (Path.ofString summary)) :
    final.top.HasDirectory [] ∧
      final.read table = .ok (ResultTable.render columns output).1 ∧
      final.read normalized =
        .ok (NormalizedTable.render (Normalization.ofRows output.rows).groups) := by
  obtain ⟨place, held, grows⟩ := Disk.holds_of_writeWithParents writes.root writes.table
  obtain ⟨_, directory⟩ := writes.root
  have root := grows.directory directory
  obtain ⟨place', held', grows'⟩ := Disk.holds_of_writeWithParents root writes.normalized
  obtain ⟨_, directory⟩ := root
  have root := grows'.directory directory
  obtain ⟨written, grows'', reports⟩ := writes.grows_report root
  obtain ⟨_, directory⟩ := root
  obtain ⟨now, held, kept⟩ := held.of_grows grows'
  obtain ⟨later, held, kept'⟩ := held.of_grows grows''
  obtain ⟨later', held', kept''⟩ := held'.of_grows grows''
  have different : place ∉ [place'] := by
    intro mem
    rw [List.mem_singleton.mp mem] at held
    exact apart ⟨place', held.fileAt?, held'.fileAt?⟩
  have untouched : place ∉ written := by
    intro mem
    obtain ⟨summary, asked, there⟩ := reports place mem
    exact (apartReport summary asked).1 ⟨place, held.fileAt?, there⟩
  have untouched' : place' ∉ written := by
    intro mem
    obtain ⟨summary, asked, there⟩ := reports place' mem
    exact (apartReport summary asked).2 ⟨place', held'.fileAt?, there⟩
  rw [held.read, held'.read, kept' untouched, kept different, kept'' untouched']
  exact ⟨grows''.directory directory, rfl, rfl⟩

end Reading

/-- Whether the rows of some results are normalized from their table as they are from memory, in
either form of the table. -/
def Collection.NormalizesFromTable (output : Collection) : Prop :=
  ∀ columns text, ResultTable.render? columns output = .ok text →
    text.2 = none ∧ ∃ rows, ResultTable.read text.1 = .ok rows ∧
      Normalization.ofTable rows = Normalization.ofRows output.rows

theorem Collection.Scored.normalizesFromTable {output : Collection} (scored : output.Scored) :
    output.NormalizesFromTable := by
  intro columns text rendered
  rw [ResultTable.eq_render_of_render? rendered]
  exact ⟨ResultTable.render_snd scored columns, _, ResultTable.read_render scored columns, rfl⟩

/-- A pass on a machine with cores has results whose table keeps what they are normalized to. -/
theorem normalizesFromTable_of_onDisk_collectFiles {σ : Type} {pass : Pass}
    {onProgress : Progress → σ → σ} {onComplete : PassSummary → σ → σ} {files : List Path}
    {state heard : σ} {disk after : Disk} {output : Collection}
    (hasCores : pass.config.collection.coreCount ≠ 0)
    (collected : onDisk (pass.collectFiles (Reporter.observing onProgress onComplete) files) state
      disk = ⟨.ok output, heard, after⟩) :
    output.NormalizesFromTable := by
  obtain ⟨-, outcomes, found, rfl⟩ := Pass.results_of_onDisk_collectFiles collected
  exact (Pass.scored_results found hasCores).normalizesFromTable

section Commands

/-- Whether a collection with these arguments put its two tables and its report, if it wrote one,
into files of their own. -/
structure WroteApart (arguments : Arguments) (table normalized : String) (final : Disk) : Prop where
  tableAt : arguments.find "--output" = .value table
  normalizedAt : arguments.find "--normalized" = .value normalized
  tables : ¬ final.SameFile (Path.ofString table) (Path.ofString normalized)
  report : ∀ summary, arguments.find "--summary" = .value summary →
    ¬ final.SameFile (Path.ofString table) (Path.ofString summary) ∧
      ¬ final.SameFile (Path.ofString normalized) (Path.ofString summary)

variable {disk : Disk} {collectArgs normalizeArgs : List String} {table normalized target : String}

/-- What `normalize` makes of the table of a collection that succeeded: the normalized table of the
collection, or the failure to write it. -/
theorem exists_runOn_normalize_of_collect
    (success : (runOn disk ("collect" :: collectArgs)).code = 0)
    (apart : WroteApart ⟨collectArgs⟩ table normalized (runOn disk ("collect" :: collectArgs)).disk)
    (inputAt : (Arguments.mk normalizeArgs).find "--input" = .value table)
    (targetAt : (Arguments.mk normalizeArgs).find "--output" = .value target) :
    let final := (runOn disk ("collect" :: collectArgs)).disk
    let exit := runOn final ("normalize" :: normalizeArgs)
    ∃ contents, final.read (Path.ofString normalized) = .ok contents ∧
      match final.writeWithParents (Path.ofString target) contents with
      | (.ok (), written) =>
        exit.code = 0 ∧ exit.disk = written ∧ written.read (Path.ofString target) = .ok contents
      | (.error _, left) => exit.code = 1 ∧ exit.disk = left := by
  intro final exit
  have final_eq : final = _ := congrArg Exit.disk (runOn_collect disk collectArgs)
  rw [runOn_collect] at success
  have done := Ended.eq_ok_of_exit_code success
  rw [← Ended.disk_exit, ← final_eq] at done
  obtain ⟨columns, output, start, first, second, writes⟩ :=
    exists_writes_of_onDisk_collect apart.tableAt apart.normalizedAt done
  obtain ⟨root, tableRead, normalizedRead⟩ := writes.read apart.tables apart.report
  obtain ⟨shown, ended⟩ := onDisk_normalize inputAt targetAt tableRead
    (ResultTable.read_render writes.scored columns) {}
  refine ⟨_, normalizedRead, ?_⟩
  have exits : exit = _ := runOn_normalize final normalizeArgs
  rw [exits, ended, Normalization.ofRows]
  cases written : final.writeWithParents (Path.ofString target)
      (NormalizedTable.render (Normalization.ofTable (output.rows.map Measurement.ofRow)).groups) with
  | mk result after =>
      cases result with
      | error e => exact ⟨rfl, rfl⟩
      | ok _ =>
          obtain ⟨place, holds, -⟩ := Disk.holds_of_writeWithParents root written
          exact ⟨rfl, rfl, holds.read⟩

end Commands

/-- Normalizing a written table is normalizing in memory. The results of a pass on a machine with
cores are normalized from their table as they are from memory. A collection that succeeds with its
tables and its report in files of their own leaves a table from which `normalize` makes the
normalized table once more, byte for byte, wherever it can write it; elsewhere it exits with one. -/
theorem normalize_written_table :
    (∀ (σ : Type) (pass : Pass) (onProgress : Progress → σ → σ) (onComplete : PassSummary → σ → σ)
      (files : List Path) (state heard : σ) (disk after : Disk) (output : Collection),
      pass.config.collection.coreCount ≠ 0 →
      onDisk (pass.collectFiles (Reporter.observing onProgress onComplete) files) state disk =
        ⟨.ok output, heard, after⟩ →
      output.NormalizesFromTable) ∧
    ∀ (disk : Disk) (collectArgs normalizeArgs : List String) (table normalized target : String),
      let final := (runOn disk ("collect" :: collectArgs)).disk
      let exit := runOn final ("normalize" :: normalizeArgs)
      (runOn disk ("collect" :: collectArgs)).code = 0 →
      WroteApart ⟨collectArgs⟩ table normalized final →
      (Arguments.mk normalizeArgs).find "--input" = .value table →
      (Arguments.mk normalizeArgs).find "--output" = .value target →
      ∃ contents, final.read (Path.ofString normalized) = .ok contents ∧
        match final.writeWithParents (Path.ofString target) contents with
        | (.ok (), written) =>
          exit.code = 0 ∧ exit.disk = written ∧ written.read (Path.ofString target) = .ok contents
        | (.error _, left) => exit.code = 1 ∧ exit.disk = left := by
  constructor
  · intro σ pass onProgress onComplete files state heard disk after output hasCores collected
    exact normalizesFromTable_of_onDisk_collectFiles hasCores collected
  · intro disk collectArgs normalizeArgs table normalized target final exit success apart inputAt
      targetAt
    exact exists_runOn_normalize_of_collect success apart inputAt targetAt

section Sample

/-- The logs of a program that runs alone, without and with a mitigation. -/
def sampleLogs : List (Bytes × Node) :=
  [(Utf8.encode "baseline.single.548_old.22002.out", .file (Utf8.encode
      "  -- th[0] : retired 200 instrs, 0 branches
  -- total number of fetched instructions : 200 (IPC = 1.5)
")),
   (Utf8.encode "benign.para.512.single.548_old.22002.out", .file (Utf8.encode
      "  -- th[0] : retired 200 instrs, 0 branches
  -- total number of fetched instructions : 200 (IPC = 1.25)
"))]

/-- A disk with the logs in one directory, another directory, and some other entries. -/
def sampleDisk (others : List (Bytes × Node)) : Disk :=
  ⟨.directory ((Utf8.encode "r", .directory sampleLogs) :: (Utf8.encode "q", .directory []) ::
    others)⟩

/-- The arguments to collect the logs. -/
def sampleArgs : List String :=
  ["--root", "r", "--output", "t", "--normalized", "p"]

/-- The paths of the logs in their order. -/
def samplePaths : List Path :=
  [Path.ofString "r/baseline.single.548_old.22002.out",
   Path.ofString "r/benign.para.512.single.548_old.22002.out"]

theorem listing_sample : (sampleDisk []).listing (Path.ofString "r") =
    .ok (some (.directory (sampleLogs.map fun entry => (entry.1, .other)))) := by
  have resolved : (sampleDisk []).top.resolve false (Path.ofString "r") =
      .ok (.present [Utf8.encode "r"] (.directory sampleLogs)) := rfl
  simp [Disk.listing, resolved, sampleLogs, Node.listings, Node.listing, Disk.opensAll]

theorem onDisk_discover_sample (terminal : Terminal) :
    onDisk (discover (Path.ofString "r") : Attempt TerminalM (List Path)) terminal (sampleDisk []) =
      ⟨.ok samplePaths, terminal, sampleDisk []⟩ := by
  have first : isLogName (Utf8.encode "baseline.single.548_old.22002.out") = true := by
    decide +kernel
  have second : isLogName (Utf8.encode "benign.para.512.single.548_old.22002.out") = true := by
    decide +kernel
  have paths : sampleLogs.map (fun entry => (Path.ofString "r").join entry.1) = samplePaths := by
    decide +kernel
  have below : logsBelow (Path.ofString "r") (sampleLogs.map fun entry => (entry.1, .other)) =
      samplePaths := by
    rw [← paths]
    simp [sampleLogs, logsBelow, first, second]
  have sorted : sortBy Path.compare samplePaths = samplePaths :=
    sortBy_of_pairwise (by decide +kernel)
  rw [discover, onDisk_bind, onDisk_listing, listing_sample]
  simp [Except.mapError, below, sorted]

theorem exists_onDisk_collect_sample : ∃ terminal table normalized,
    onDisk (Command.collect ⟨sampleArgs⟩ : Command TerminalM Unit) {} (sampleDisk []) =
      ⟨.ok (), terminal,
        sampleDisk [(Utf8.encode "t", .file table), (Utf8.encode "p", .file normalized)]⟩ := by
  have required : onDisk (Command.required ⟨sampleArgs⟩ "--root" : Command TerminalM String) {}
      (sampleDisk []) = ⟨.ok "r", {}, sampleDisk []⟩ := rfl
  have configured : onDisk (Command.configOf ⟨sampleArgs⟩ : Command TerminalM Config) {} (sampleDisk []) =
      ⟨.ok {}, {}, sampleDisk []⟩ := rfl
  have loaded (terminal : Terminal) : onDisk (Command.attempt (Config.loadCatalog {}) :
      Command TerminalM Catalog) terminal (sampleDisk []) =
        ⟨.ok Catalog.builtin, terminal, sampleDisk []⟩ := rfl
  have tableAt : Arguments.find ⟨sampleArgs⟩ "--output" = .value "t" := by decide
  have normalizedAt : Arguments.find ⟨sampleArgs⟩ "--normalized" = .value "p" := by decide
  have summary : Arguments.find ⟨sampleArgs⟩ "--summary" = .absent := by decide
  have quiet : (if (Config.execution {}).reportProgress then Command.consoleReporter
      else Reporter.silent : Reporter TerminalM) = Reporter.silent := rfl
  have first (table : Bytes) : (sampleDisk []).writeWithParents (Path.ofString "t") table =
      (.ok (), sampleDisk [(Utf8.encode "t", .file table)]) := rfl
  have second (table normalized : Bytes) :
      (sampleDisk [(Utf8.encode "t", .file table)]).writeWithParents (Path.ofString "p") normalized =
        (.ok (), sampleDisk [(Utf8.encode "t", .file table), (Utf8.encode "p", .file normalized)]) := rfl
  unfold Command.collect
  simp only [onDisk_bind, required, configured, loaded, Ended.andThen_ok, onDisk_print, quiet]
  generalize Terminal.mk _ _ = terminal
  have fits : fitsInMemory numberSize (Config.collection {}).coreCount.toNat = true := by decide
  obtain ⟨output, shown, done⟩ := Pass.exists_onDisk_collectFiles ⟨{}, Catalog.builtin⟩
    (fun _ t => t) (fun _ t => t) samplePaths terminal
    (sampleDisk []) fits
  obtain ⟨-, outcomes, found, rfl⟩ := Pass.results_of_onDisk_collectFiles done
  have collected : onDisk (Pass.collect ⟨{}, Catalog.builtin⟩ Reporter.silent (Path.ofString "r") :
      Attempt TerminalM Collection) terminal (sampleDisk []) =
        ⟨.ok (Pass.results ⟨{}, Catalog.builtin⟩ outcomes), shown, sampleDisk []⟩ := by
    rw [Pass.collect, onDisk_bind, onDisk_discover_sample]
    exact done
  have scored := Pass.scored_results found (by decide)
  have listed : ResultTable.canListHeader (Config.collection {}).columns
      (Pass.results ⟨{}, Catalog.builtin⟩ outcomes).coreCount = true := by
    show ResultTable.canListHeader .perCore 16 = true
    decide
  simp only [onDisk_attempt, collected, Except.mapError, Ended.andThen_ok, onDisk_bind,
    onDisk_printAll, onDisk_print, onDisk_option, tableAt, normalizedAt, summary, Option.getD_some,
    onDisk_save scored listed, first, NormalizedTable.save, onDisk_writeWithParents, second,
    onDisk_pure]
  exact ⟨_, _, _, rfl⟩

/-- The tables of the logs are in files of their own. -/
theorem wroteApart_sample (table normalized : Bytes) :
    WroteApart ⟨sampleArgs⟩ "t" "p"
      (sampleDisk [(Utf8.encode "t", .file table), (Utf8.encode "p", .file normalized)]) where
  tableAt := by decide
  normalizedAt := by decide
  tables := by
    rintro ⟨place, tablePlace, normalizedPlace⟩
    have same : some [Utf8.encode "t"] = some [Utf8.encode "p"] :=
      tablePlace.trans normalizedPlace.symm
    exact absurd same (by decide +kernel)
  report summary asked := by
    have absent : Arguments.find ⟨sampleArgs⟩ "--summary" = .absent := by decide
    rw [absent] at asked
    cases asked

/-- Collecting the logs succeeds and adds the two tables to the disk. -/
theorem exists_runOn_collect_sample :
    let exit := runOn (sampleDisk []) ("collect" :: sampleArgs)
    ∃ table normalized,
      exit.disk = sampleDisk [(Utf8.encode "t", .file table), (Utf8.encode "p", .file normalized)] ∧
        exit.code = 0 ∧ WroteApart ⟨sampleArgs⟩ "t" "p" exit.disk := by
  intro exit
  obtain ⟨terminal, table, normalized, done⟩ := exists_onDisk_collect_sample
  have exit_eq : exit = ⟨0, terminal,
      sampleDisk [(Utf8.encode "t", .file table), (Utf8.encode "p", .file normalized)]⟩ := by
    rw [show exit = _ from runOn_collect _ _, done]
    rfl
  rw [exit_eq]
  exact ⟨table, normalized, rfl, rfl, wroteApart_sample table normalized⟩

/-- The result table of two logs is normalized from its file into a third one. -/
theorem normalize_written_table_sample :
    let pass : Pass := ⟨{}, Catalog.builtin⟩
    let reporter := Reporter.observing (fun _ (heard : Unit) => heard) fun _ heard => heard
    let final := (runOn (sampleDisk []) ("collect" :: sampleArgs)).disk
    let exit := runOn final ["normalize", "--input", "t", "--output", "o"]
    (∃ output, onDisk (pass.collectFiles reporter samplePaths) () (sampleDisk []) =
        ⟨.ok output, (), sampleDisk []⟩ ∧ output.NormalizesFromTable) ∧
      (runOn (sampleDisk []) ("collect" :: sampleArgs)).code = 0 ∧
      WroteApart ⟨sampleArgs⟩ "t" "p" final ∧
      ∃ contents, final.read (Path.ofString "p") = .ok contents ∧
        exit.code = 0 ∧ exit.disk.read (Path.ofString "o") = .ok contents := by
  intro pass reporter final exit
  obtain ⟨output, heard, done⟩ := Pass.exists_onDisk_collectFiles pass
    (fun _ (heard : Unit) => heard) (fun _ heard => heard) samplePaths () (sampleDisk []) (by decide)
  have normalizes := normalize_written_table.1 Unit pass _ _ samplePaths () heard (sampleDisk [])
    (sampleDisk []) output (by decide) done
  obtain ⟨table, normalized, final_eq, success, apart⟩ := exists_runOn_collect_sample
  obtain ⟨contents, read, exits⟩ := normalize_written_table.2 (sampleDisk []) sampleArgs
    ["--input", "t", "--output", "o"] "t" "p" "o" success apart (by decide) (by decide)
  have written : final.writeWithParents (Path.ofString "o") contents =
      (.ok (), sampleDisk [(Utf8.encode "t", .file table), (Utf8.encode "p", .file normalized),
        (Utf8.encode "o", .file contents)]) := by
    rw [show final = _ from final_eq]
    rfl
  rw [written] at exits
  obtain ⟨code, disk, reads⟩ := exits
  exact ⟨⟨output, done, normalizes⟩, success, apart, contents, read, code, disk ▸ reads⟩

/-- Not every table can be normalized from its file: `normalize` cannot write to a directory, and the
table of a machine with more cores than memory can list has no text. -/
theorem normalize_written_table_limits :
    let final := (runOn (sampleDisk []) ("collect" :: sampleArgs)).disk
    let vast : Pass := ⟨{ collection := { coreCount := 0xFFFFFFFFFFFFFFFF } }, Catalog.builtin⟩
    let reporter := Reporter.observing (fun _ (heard : Unit) => heard) fun _ heard => heard
    ((runOn (sampleDisk []) ("collect" :: sampleArgs)).code = 0 ∧
      WroteApart ⟨sampleArgs⟩ "t" "p" final ∧
      (runOn final ["normalize", "--input", "t", "--output", "q"]).code = 1) ∧
    ∃ output, onDisk (vast.collectFiles reporter []) () (sampleDisk []) =
        ⟨.ok output, (), sampleDisk []⟩ ∧
      ResultTable.render? .perCore output = .error .capacityOverflow := by
  intro final vast reporter
  obtain ⟨table, normalized, final_eq, success, apart⟩ := exists_runOn_collect_sample
  have inputAt : Arguments.find ⟨["--input", "t", "--output", "q"]⟩ "--input" = .value "t" := by
    decide
  have targetAt : Arguments.find ⟨["--input", "t", "--output", "q"]⟩ "--output" = .value "q" := by
    decide
  obtain ⟨contents, -, exits⟩ :=
    exists_runOn_normalize_of_collect success apart inputAt targetAt
  have written : final.writeWithParents (Path.ofString "q") contents =
      (.error .isADirectory, final) := by
    rw [show final = _ from final_eq]
    rfl
  rw [written] at exits
  have unlisted : ResultTable.render? .perCore (vast.results []) = .error .capacityOverflow := by
    have full : ResultTable.canListHeader .perCore 0xFFFFFFFFFFFFFFFF = false := by decide
    exact if_neg (ne_true_of_eq_false full)
  obtain ⟨heard, done⟩ := Pass.onDisk_collectFiles vast (fun _ (heard : Unit) => heard)
    (fun _ heard => heard) [] () (sampleDisk [])
  exact ⟨⟨success, apart, exits.1⟩, vast.results [], done, unlisted⟩

end Sample

end SpeedupStudy
