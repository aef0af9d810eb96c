/-
# One row for each run

The rows of a pass are in strict order, so no two of them have one key. A key has a row exactly if
the pass can score some file of the key, and the row is that of the first such file, where names
without a scenario go before names with one and the list of files decides among the others. Each
further listing of a file that could be scored is skipped as a duplicate, and nothing else is.
-/

import SpeedupStudy.Proofs.Collection.Outcomes
import SpeedupStudy.Proofs.Collection.Separation
import SpeedupStudy.Proofs.Sort

namespace SpeedupStudy

/-- The row of an outcome, if it is one. -/
def Outcome.row? : Outcome → Option Row
  | .row found => some found
  | _ => none

/-- The skipped file of an outcome, if it is one. -/
def Outcome.skipped? : Outcome → Option SkippedLog
  | .skipped found => some found
  | _ => none

namespace Pass

/-- A file that a pass can score, with its row: the name names a run of the scenario of the pass, the
catalog has the solo rates of the run, and the log can be read. -/
structure Eligible (pass : Pass) (disk : Disk) (path : Path) (row : Row) : Prop where
  named : Run.ofPath path = .ok row.run
  scenario : row.run.effectiveScenario = pass.config.collection.scenario
  source : row.source = path
  scored : ∃ solo log,
    pass.catalog.soloIpcs row.run pass.config.collection.machine = .ok solo ∧
      disk.read path = .ok log ∧
      row.speedup = Speedup.ofLog (pass.config.collection.logReader.read log) solo

/-- The order in which a pass lists rows. -/
def compareRows (a b : Row) : Ordering :=
  Run.compare a.run b.run

instance : Std.TransCmp compareRows :=
  transCmp_comap Row.run

theorem rows_tally (outcomes : List Outcome) :
    (Tally.ofList outcomes).rows = outcomes.filterMap Outcome.row? := by
  induction outcomes with
  | nil => rfl
  | cons outcome rest ih =>
      cases outcome with
      | row row => exact congrArg (row :: ·) ih
      | otherScenario => exact ih
      | skipped file => exact ih

theorem skipped_tally (outcomes : List Outcome) :
    (Tally.ofList outcomes).skipped = outcomes.filterMap Outcome.skipped? := by
  induction outcomes with
  | nil => rfl
  | cons outcome rest ih =>
      cases outcome with
      | row row => exact ih
      | otherScenario => exact ih
      | skipped file => exact congrArg (file :: ·) ih

/-- The rows of some outcomes in the order of runs. -/
def sortedRows (outcomes : List Outcome) : List Row :=
  sortBy compareRows (outcomes.filterMap Outcome.row?)

/-- A row that repeats the run of another, as a skipped file. -/
def duplicateOf (row : Row) : SkippedLog :=
  ⟨row.source, .duplicate⟩

variable (pass : Pass)

theorem rows_results (outcomes : List Outcome) :
    (pass.results outcomes).rows = (separate none (sortedRows outcomes)).1 := by
  rw [sortedRows, ← rows_tally]
  rfl

theorem skipped_results (outcomes : List Outcome) :
    (pass.results outcomes).skipped =
      sortBy (fun a b => a.path.compare b.path) (outcomes.filterMap Outcome.skipped? ++
        (separate none (sortedRows outcomes)).2.map duplicateOf) := by
  rw [sortedRows, ← rows_tally, ← skipped_tally]
  rfl

theorem inKeyOrder_sortedRows (outcomes : List Outcome) : InKeyOrder (sortedRows outcomes) := by
  have sorted : (sortedRows outcomes).Pairwise fun a b => (compareRows a b).isLE :=
    pairwise_sortBy _
  exact sorted.imp Run.isLE_compareKey

/-- The row of a key is the first of the sorted rows of the key. -/
theorem rowsOfKey_results (key : Run.Key) (outcomes : List Outcome) :
    rowsOfKey key (pass.results outcomes).rows =
      (sortBy compareRows (rowsOfKey key (outcomes.filterMap Outcome.row?))).take 1 := by
  rw [rows_results, (rowsOfKey_separate key (inKeyOrder_sortedRows outcomes)).1, sortedRows,
    rowsOfKey, filter_sortBy, rowsOfKey]

/-- The rows that repeat a run of a key are all but the first of the sorted rows of the key. -/
theorem rowsOfKey_repeated (key : Run.Key) (outcomes : List Outcome) :
    rowsOfKey key (separate none (sortedRows outcomes)).2 =
      (sortBy compareRows (rowsOfKey key (outcomes.filterMap Outcome.row?))).drop 1 := by
  rw [(rowsOfKey_separate key (inKeyOrder_sortedRows outcomes)).2, sortedRows,
    rowsOfKey, filter_sortBy, rowsOfKey]

/-- The row of a file that a pass can score. -/
def eligibleRow? (disk : Disk) (path : Path) : Option Row :=
  match Run.ofPath path with
  | .error _ => none
  | .ok run =>
    if run.effectiveScenario = pass.config.collection.scenario then
      match pass.catalog.soloIpcs run pass.config.collection.machine, disk.read path with
      | .ok solo, .ok log =>
        some ⟨run, Speedup.ofLog (pass.config.collection.logReader.read log) solo, path⟩
      | _, _ => none
    else none

variable {pass} {disk : Disk} {path : Path} {row : Row}

theorem eligibleRow?_eq_some_iff :
    pass.eligibleRow? disk path = some row ↔ Eligible pass disk path row := by
  unfold eligibleRow?
  constructor
  · intro found
    split at found
    · cases found
    · next run named =>
        split at found
        · next scenario =>
            split at found
            · next solo log resolved read =>
                cases found
                exact ⟨named, scenario, rfl, solo, log, resolved, read, rfl⟩
            · cases found
        · cases found
  · rintro ⟨named, scenario, rfl, solo, log, resolved, read, speedup⟩
    simp only [named, scenario, if_true, resolved, read, ← speedup]

/-- A scored file has a speedup for each core of the machine. -/
theorem Eligible.length_perCore (eligible : Eligible pass disk path row) :
    row.speedup.perCore.length = pass.config.collection.coreCount.toNat := by
  obtain ⟨solo, log, -, -, scored⟩ := eligible.scored
  rw [scored, Speedup.length_perCore_ofLog]
  exact length_fitTo _ _

instance : Decidable (∃ row, Eligible pass disk path row) :=
  decidable_of_iff ((pass.eligibleRow? disk path).isSome = true) <| by
    simp only [Option.isSome_iff_exists, eligibleRow?_eq_some_iff]

/-- A file gives a row exactly if the pass can score it. -/
theorem row?_of_judged {outcome : Outcome}
    (judged : Judged pass path (disk.read path) (.ok outcome)) :
    outcome.row? = pass.eligibleRow? disk path := by
  generalize read : disk.read path = contents at judged
  cases judged with
  | unnamed unnamed => simp only [eligibleRow?, unnamed, Outcome.row?]
  | otherScenario named other => simp only [eligibleRow?, named, if_neg other, Outcome.row?]
  | unresolved named scenario unresolved =>
      simp only [eligibleRow?, named, if_pos scenario, unresolved, Outcome.row?]
  | unreadable named scenario resolved unreadable =>
      simp only [eligibleRow?, named, if_pos scenario, resolved, read, unreadable, Outcome.row?]
  | scored named scenario resolved done =>
      simp only [eligibleRow?, named, if_pos scenario, resolved, read, done, Outcome.row?]

/-- A file that is skipped for itself is no duplicate. -/
theorem cause_ne_duplicate_of_judged {contents : Except IoError Bytes} {file : SkippedLog}
    (judged : Judged pass path contents (.ok (.skipped file))) : file.cause ≠ .duplicate := by
  generalize outcome : Outcome.skipped file = given at judged
  cases judged with
  | unnamed => cases outcome; simp
  | otherScenario => cases outcome
  | unresolved => cases outcome; simp
  | unreadable => cases outcome; simp
  | scored => cases outcome

variable {files : List Path} {outcomes : List Outcome}

/-- What is selected from the outcomes of a pass is what is selected from those of its files. -/
theorem filterMap_outcomes {β : Type} (found : pass.outcomes disk files = .ok outcomes)
    (select : Outcome → Option β) :
    outcomes.filterMap select = files.filterMap fun path => (pass.outcome? disk path).bind select := by
  have same := map_outcome?_of_outcomes found
  calc
    outcomes.filterMap select = (outcomes.map some).filterMap fun outcome => outcome.bind select := by
      rw [List.filterMap_map]
      rfl
    _ = (files.map (pass.outcome? disk)).filterMap fun outcome => outcome.bind select := by rw [same]
    _ = _ := by
      rw [List.filterMap_map]
      rfl

/-- The outcome of each file of a pass that does not end early. -/
theorem exists_judged_of_outcomes (found : pass.outcomes disk files = .ok outcomes)
    (mem : path ∈ files) :
    ∃ outcome, pass.outcome? disk path = some outcome ∧
      Judged pass path (disk.read path) (.ok outcome) := by
  have there : pass.outcome? disk path ∈ outcomes.map some := by
    rw [← map_outcome?_of_outcomes found]
    exact List.mem_map_of_mem mem
  obtain ⟨outcome, -, judged⟩ := List.mem_map.mp there
  refine ⟨outcome, judged.symm, ?_⟩
  have result := judged_outcome pass path (disk.read path)
  unfold outcome? at judged
  cases done : pass.outcome path (disk.read path) with
  | error event => rw [done] at judged; cases judged
  | ok outcome' =>
      rw [done] at judged result
      cases judged
      exact result

/-- A file is skipped for its name only if the reader of names rejects it for the same cause. -/
theorem ofPath_of_mem_skipped (found : pass.outcomes disk files = .ok outcomes) {file : SkippedLog}
    {cause : NameError} (mem : file ∈ (pass.results outcomes).skipped)
    (unnamed : file.cause = .unparseableName cause) :
    file.path ∈ files ∧ Run.ofPath file.path = .error cause := by
  rw [skipped_results, mem_sortBy, List.mem_append] at mem
  rcases mem with own | repeated
  · rw [filterMap_outcomes found] at own
    obtain ⟨path, listed, here⟩ := List.mem_filterMap.mp own
    obtain ⟨outcome, judged, result⟩ := exists_judged_of_outcomes found listed
    rw [judged, Option.bind_some] at here
    cases result with
    | unnamed rejected =>
        cases here
        cases unnamed
        exact ⟨listed, rejected⟩
    | unresolved | unreadable =>
        cases here
        cases unnamed
    | otherScenario | scored => cases here
  · obtain ⟨row, -, rfl⟩ := List.mem_map.mp repeated
    cases unnamed

/-- The rows among the outcomes of a pass are those of the files that it can score. -/
theorem rows_of_outcomes (found : pass.outcomes disk files = .ok outcomes) :
    outcomes.filterMap Outcome.row? = files.filterMap (pass.eligibleRow? disk) := by
  rw [filterMap_outcomes found]
  apply List.filterMap_congr
  intro path mem
  obtain ⟨outcome, judged, result⟩ := exists_judged_of_outcomes found mem
  rw [judged, ← row?_of_judged result]
  rfl

/-- The files of a key that a pass can score, with their rows. -/
theorem rowsOfKey_of_outcomes (found : pass.outcomes disk files = .ok outcomes) (key : Run.Key) :
    rowsOfKey key (outcomes.filterMap Outcome.row?) = files.filterMap fun path =>
      (pass.eligibleRow? disk path).filter fun row => row.run.key = key := by
  rw [rows_of_outcomes found, rowsOfKey, List.filter_filterMap]

theorem eligibleRow?_filter_eq_some_iff {key : Run.Key} :
    (pass.eligibleRow? disk path).filter (fun row => row.run.key = key) = some row ↔
      Eligible pass disk path row ∧ row.run.key = key := by
  rw [Option.filter_eq_some_iff, eligibleRow?_eq_some_iff, decide_eq_true_eq]

/-- A key has a row exactly if the pass can score a file of the key. -/
theorem exists_row_iff (found : pass.outcomes disk files = .ok outcomes) (key : Run.Key) :
    (∃ row ∈ (pass.results outcomes).rows, row.run.key = key) ↔
      ∃ path ∈ files, ∃ row, Eligible pass disk path row ∧ row.run.key = key := by
  have inside : (∃ row ∈ (pass.results outcomes).rows, row.run.key = key) ↔
      rowsOfKey key (pass.results outcomes).rows ≠ [] := by
    simp [rowsOfKey]
  have empty : rowsOfKey key (pass.results outcomes).rows = [] ↔
      rowsOfKey key (outcomes.filterMap Outcome.row?) = [] := by
    rw [rowsOfKey_results, List.take_eq_nil_iff, ← List.length_eq_zero_iff, length_sortBy,
      List.length_eq_zero_iff]
    simp
  rw [inside, Ne, empty, rowsOfKey_of_outcomes found, List.filterMap_eq_nil_iff]
  simp only [Classical.not_forall, ← Ne.eq_def, Option.ne_none_iff_exists',
    eligibleRow?_filter_eq_some_iff, exists_prop]

/-- Of two scenarios of one pass the first is strictly smaller only if it is absent and the other is
there. -/
theorem absent_of_compareScenarios_lt {a b : Option Scenario}
    (same : a.getD .benign = b.getD .benign) (below : compareScenarios a b = .lt) :
    a = none ∧ b ≠ none := by
  cases a with
  | none =>
      cases b with
      | none => cases below
      | some t => exact ⟨rfl, by simp⟩
  | some t =>
      cases b with
      | none => cases below
      | some t' =>
          have equal : t = t' := same
          rw [equal, compareScenarios, Std.ReflOrd.compare_self] at below
          cases below

theorem absent_of_compareScenarios_isLE {a b : Option Scenario}
    (below : (compareScenarios a b).isLE = true) : a = none ∨ b ≠ none := by
  cases a with
  | none => exact .inl rfl
  | some t =>
      cases b with
      | none => cases below
      | some t' => exact .inr (by simp)

/-- The row of a key is that of the first file of the key that the pass can score, names without a
scenario first. -/
theorem exists_first_of_mem_rows (found : pass.outcomes disk files = .ok outcomes)
    (mem : row ∈ (pass.results outcomes).rows) :
    ∃ earlier later, files = earlier ++ row.source :: later ∧
      Eligible pass disk row.source row ∧
      (∀ path ∈ earlier, ∀ other, Eligible pass disk path other → other.run.key = row.run.key →
        row.run.scenario = none ∧ other.run.scenario ≠ none) ∧
      ∀ path ∈ later, ∀ other, Eligible pass disk path other → other.run.key = row.run.key →
        row.run.scenario = none ∨ other.run.scenario ≠ none := by
  have here : row ∈ rowsOfKey row.run.key (pass.results outcomes).rows :=
    List.mem_filter.mpr ⟨mem, by simp⟩
  rw [rowsOfKey_results] at here
  obtain ⟨rest, sorted⟩ : ∃ rest, sortBy compareRows
      (rowsOfKey row.run.key (outcomes.filterMap Outcome.row?)) = row :: rest := by
    generalize sortBy compareRows _ = sorted at here
    cases sorted with
    | nil => simp at here
    | cons first rest =>
        have same : row = first := by simpa using here
        exact ⟨rest, by rw [same]⟩
  obtain ⟨before, after, cut, smaller, notLarger⟩ := exists_append_of_sortBy_eq_cons sorted
  rw [rowsOfKey_of_outcomes found] at cut
  obtain ⟨earlier, files', rfl, inBefore, split⟩ := List.filterMap_eq_append_iff.mp cut
  obtain ⟨between, path, later, rfl, nothing, first, inAfter⟩ := List.filterMap_eq_cons_iff.mp split
  obtain ⟨eligible, -⟩ := eligibleRow?_filter_eq_some_iff.mp first
  refine ⟨earlier ++ between, later, ?_, ?_, ?_, ?_⟩
  · rw [eligible.source, List.append_assoc]
  · rw [eligible.source]
    exact eligible
  · intro path' mem' other eligible' same
    have given := eligibleRow?_filter_eq_some_iff.mpr ⟨eligible', same⟩
    rcases List.mem_append.mp mem' with mem' | mem'
    · have listed : other ∈ before := by
        rw [← inBefore]
        exact List.mem_filterMap.mpr ⟨path', mem', given⟩
      have order : Run.compare row.run other.run = .lt := smaller other listed
      rw [Run.compare_of_key_eq same.symm] at order
      exact absent_of_compareScenarios_lt (eligible.scenario.trans eligible'.scenario.symm) order
    · rw [nothing path' mem'] at given
      cases given
  · intro path' mem' other eligible' same
    have given := eligibleRow?_filter_eq_some_iff.mpr ⟨eligible', same⟩
    have listed : other ∈ after := by
      rw [← inAfter]
      exact List.mem_filterMap.mpr ⟨path', mem', given⟩
    have order : (Run.compare row.run other.run).isLE = true := notLarger other listed
    rw [Run.compare_of_key_eq same.symm] at order
    exact absent_of_compareScenarios_isLE order

/-- Each listing of a file that the pass can score is the source of a row or a duplicate, and no
other file is a duplicate. -/
theorem perm_sources_duplicates (found : pass.outcomes disk files = .ok outcomes) :
    (files.filter fun path => ∃ row, Eligible pass disk path row).Perm
      ((pass.results outcomes).rows.map Row.source ++
        ((pass.results outcomes).skipped.filter fun file => file.cause = .duplicate).map
          SkippedLog.path) := by
  have sources : (outcomes.filterMap Outcome.row?).map Row.source =
      files.filter fun path => ∃ row, Eligible pass disk path row := by
    rw [rows_of_outcomes found, List.map_filterMap, ← List.filterMap_eq_filter]
    apply List.filterMap_congr
    intro path _
    cases given : pass.eligibleRow? disk path with
    | none =>
        have not : ¬ ∃ row, Eligible pass disk path row := by
          rintro ⟨row, eligible⟩
          rw [eligibleRow?_eq_some_iff.mpr eligible] at given
          cases given
        simp [Option.guard, not]
    | some row =>
        have eligible := eligibleRow?_eq_some_iff.mp given
        have some : ∃ row, Eligible pass disk path row := ⟨row, eligible⟩
        simp [Option.guard, some, eligible.source]
  have repeated : ((pass.results outcomes).skipped.filter fun file =>
      file.cause = .duplicate).Perm ((separate none (sortedRows outcomes)).2.map duplicateOf) := by
    have first : ((outcomes.filterMap Outcome.skipped?).filter fun file =>
        file.cause = .duplicate) = [] := by
      rw [filterMap_outcomes found, List.filter_eq_nil_iff]
      intro file mem
      obtain ⟨path, listed, given⟩ := List.mem_filterMap.mp mem
      obtain ⟨outcome, judged, result⟩ := exists_judged_of_outcomes found listed
      rw [judged, Option.bind_some] at given
      cases outcome with
      | row found => cases given
      | otherScenario => cases given
      | skipped file' =>
          cases given
          simpa using cause_ne_duplicate_of_judged result
    have second : (((separate none (sortedRows outcomes)).2.map duplicateOf).filter fun file =>
        file.cause = .duplicate) = (separate none (sortedRows outcomes)).2.map duplicateOf :=
      List.filter_eq_self.mpr fun file mem => by
        obtain ⟨row, -, rfl⟩ := List.mem_map.mp mem
        rfl
    rw [skipped_results]
    refine ((sortBy_perm _ _).filter _).trans ?_
    rw [List.filter_append, first, second, List.nil_append]
  calc
    files.filter (fun path => ∃ row, Eligible pass disk path row)
      = (outcomes.filterMap Outcome.row?).map Row.source := sources.symm
    List.Perm _ (((separate none (sortedRows outcomes)).1 ++
          (separate none (sortedRows outcomes)).2).map Row.source) :=
        ((separate_perm none (sortedRows outcomes)).trans (sortBy_perm _ _)).symm.map Row.source
    _ = (separate none (sortedRows outcomes)).1.map Row.source ++
          ((separate none (sortedRows outcomes)).2.map duplicateOf).map SkippedLog.path := by
        rw [List.map_append, List.map_map]
        rfl
    List.Perm _ _ := by
        rw [← rows_results]
        exact (repeated.symm.map SkippedLog.path).append_left _

/-- A pass that memory can hold gives results, leaves the disk as it is, and in the results
* the rows are in strict order of method, mode, configuration and run base, so no two have one key;
* a key has a row exactly if the pass can score a file of the key;
* the row of a key is that of the first such file, names without a scenario before names with one;
* each further listing of a file that the pass can score is a duplicate, and nothing else is. -/
theorem collectFiles_first_of_each_key {σ : Type} (pass : Pass) (files : List Path)
    (onProgress : Progress → σ → σ) (onComplete : PassSummary → σ → σ) (state : σ) (disk : Disk) :
    (fitsInMemory numberSize pass.config.collection.coreCount.toNat = true →
      ∃ output heard,
        onDisk (pass.collectFiles (Reporter.observing onProgress onComplete) files) state disk =
          ⟨.ok output, heard, disk⟩) ∧
    ∀ output heard disk',
      onDisk (pass.collectFiles (Reporter.observing onProgress onComplete) files) state disk =
        ⟨.ok output, heard, disk'⟩ →
      disk' = disk ∧
      (output.rows.Pairwise fun a b => Run.compareKey a.run b.run = .lt) ∧
      (output.rows.map fun row => row.run.key).Nodup ∧
      (∀ key, (∃ row ∈ output.rows, row.run.key = key) ↔
        ∃ path ∈ files, ∃ row, Eligible pass disk path row ∧ row.run.key = key) ∧
      (∀ row ∈ output.rows, ∃ earlier later, files = earlier ++ row.source :: later ∧
        Eligible pass disk row.source row ∧
        (∀ path ∈ earlier, ∀ other, Eligible pass disk path other → other.run.key = row.run.key →
          row.run.scenario = none ∧ other.run.scenario ≠ none) ∧
        ∀ path ∈ later, ∀ other, Eligible pass disk path other → other.run.key = row.run.key →
          row.run.scenario = none ∨ other.run.scenario ≠ none) ∧
      (files.filter fun path => ∃ row, Eligible pass disk path row).Perm
        (output.rows.map Row.source ++
          (output.skipped.filter fun file => file.cause = .duplicate).map SkippedLog.path) := by
  refine ⟨exists_onDisk_collectFiles pass onProgress onComplete files state disk, ?_⟩
  intro output heard disk' done
  obtain ⟨rfl, outcomes, found, rfl⟩ := results_of_onDisk_collectFiles done
  have strict : InStrictKeyOrder (pass.results outcomes).rows := by
    rw [rows_results]
    exact inStrictKeyOrder_separate (inKeyOrder_sortedRows outcomes)
  refine ⟨rfl, strict, ?_, exists_row_iff found, ?_, perm_sources_duplicates found⟩
  · refine List.pairwise_map.mpr (strict.imp fun smaller same => ?_)
    rw [Run.compareKey_eq_eq_iff.mpr same] at smaller
    cases smaller
  · exact fun row mem => exists_first_of_mem_rows found mem

/-- A baseline run has a row where its log is listed under the short form of its name. -/
theorem collectFiles_first_of_each_key_baseline :
    let log := Path.ofString "baseline.single.429.mcf.out"
    let pass : Pass := ⟨{}, Catalog.empty.withTrace "429.mcf" 1.0⟩
    let disk : Disk := ⟨.directory [(log.bytes, .file [])]⟩
    ∃ output heard,
      onDisk (pass.collectFiles (Reporter.observing (fun _ heard => heard) fun _ heard => heard)
        [Path.ofString "other.out", log, log]) () disk = ⟨.ok output, heard, disk⟩ ∧
      ∃ row ∈ output.rows, row.run.key = ⟨"baseline", .single, "none", "single.429.mcf"⟩ := by
  intro log pass disk
  obtain ⟨total, settled⟩ := collectFiles_first_of_each_key pass
    [Path.ofString "other.out", log, log] (fun _ heard => heard) (fun _ heard => heard) () disk
  obtain ⟨output, heard, done⟩ := total (by decide)
  refine ⟨output, heard, done, ?_⟩
  obtain ⟨-, -, -, rows, -⟩ := settled output heard disk done
  have bytes : log.fileName?.bind Utf8.decode? = some "baseline.single.429.mcf.out" := by
    have name : log.fileName? = some (Utf8.encode "baseline.single.429.mcf.out") := by
      decide +kernel
    rw [name, Option.bind_some, Utf8.decode?_encode]
  have named : Run.ofPath log = .ok ⟨none, "baseline", "none", .single, "single.429.mcf"⟩ := by
    rw [Run.ofPath, bytes]
    rfl
  have resolved : pass.catalog.soloIpcs ⟨none, "baseline", "none", .single, "single.429.mcf"⟩
      pass.config.collection.machine = .ok [1.0] := by
    rfl
  have read : disk.read log = .ok [] := by
    rfl
  exact (rows _).mpr ⟨log, by simp, ⟨_, Speedup.ofLog _ [1.0], log⟩,
    ⟨named, rfl, rfl, [1.0], [], resolved, read, rfl⟩, rfl⟩

end Pass

end SpeedupStudy
