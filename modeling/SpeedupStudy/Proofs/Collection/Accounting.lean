/-
# The account of a pass

Each listing of a file is either of the other scenario, or the source of a row, or skipped. What
becomes of one file settles which, and a pass adds up over its list: the rows that repeat a run move
from the rows to the skipped files, and nothing is lost or counted twice on the way. The counts of
the summary follow, as they are those of the three parts.
-/

import SpeedupStudy.Proofs.Collection.Locality
import SpeedupStudy.Proofs.Run.FileName

namespace SpeedupStudy

namespace Pass

/-- Whether the name of a file names a run of another scenario than that of a pass. -/
def namesOther (pass : Pass) (path : Path) : Bool :=
  match Run.ofPath path with
  | .error _ => false
  | .ok run => ! run.belongsTo pass.config.collection.scenario

/-- What a pass accounts for: each listing in one of three parts, and all counts by them. -/
structure Accounts (pass : Pass) (files : List Path) (output : Collection) : Prop where
  /-- Each listing is the source of a row, a skipped file or of the other scenario. -/
  listings : files.Perm (output.rows.map Row.source ++ output.skipped.map SkippedLog.path ++
    files.filter pass.namesOther)
  /-- No row and no skipped file is of the other scenario. -/
  own : ∀ path ∈ output.rows.map Row.source ++ output.skipped.map SkippedLog.path,
    pass.namesOther path = false
  discovered : output.summary.discovered = files.length
  balance : output.summary.discovered =
    output.summary.otherScenario + output.summary.rows + output.summary.skipped
  otherScenario : output.summary.otherScenario = files.countP pass.namesOther
  processed : output.summary.processed = output.summary.rows
  rows : output.summary.rows = output.rows.length
  skipped : output.summary.skipped = output.skipped.length
  causes : output.summary.skipped = output.summary.unparseableNames +
    output.summary.unresolvedRuns + output.summary.unreadableLogs + output.summary.duplicates
  endings : output.summary.rows = output.summary.crashed + output.summary.faulted +
    output.rows.countP (·.speedup.status == .valid)
  inOrder : output.skipped.Pairwise fun a b => (a.path.compare b.path).isLE
  /-- Every file of the scenario gave a row exactly if each is the source of one and none of them is
  listed twice. -/
  allProcessed : output.summary.allProcessed = true ↔
    (∀ path ∈ files, pass.namesOther path = false → ∃ row ∈ output.rows, row.source = path) ∧
      (files.filter fun path => ! pass.namesOther path).Nodup

variable {pass : Pass} {disk : Disk} {files : List Path} {outcomes : List Outcome}

/-- A file gives a row of its own, or is of the other scenario, or is skipped under its own path. -/
theorem part_of_judged {path : Path} {contents : Except IoError Bytes} {outcome : Outcome}
    (judged : Judged pass path contents (.ok outcome)) :
    match outcome with
    | .row row => row.source = path ∧ pass.namesOther path = false
    | .otherScenario => pass.namesOther path = true
    | .skipped file => file.path = path ∧ pass.namesOther path = false := by
  have ofRun {run : Run} (named : Run.ofPath path = .ok run) :
      pass.namesOther path = ! run.belongsTo pass.config.collection.scenario := by
    rw [namesOther, named]
  have own {run : Run} (named : Run.ofPath path = .ok run)
      (scenario : run.effectiveScenario = pass.config.collection.scenario) :
      pass.namesOther path = false := by
    simp [ofRun named, Run.belongsTo, scenario]
  cases judged with
  | unnamed unnamed => exact ⟨rfl, by rw [namesOther, unnamed]⟩
  | otherScenario named other => simpa [ofRun named, Run.belongsTo] using other
  | unresolved named scenario => exact ⟨rfl, own named scenario⟩
  | unreadable named scenario => exact ⟨rfl, own named scenario⟩
  | scored named scenario => exact ⟨rfl, own named scenario⟩

/-- The outcomes of a list of files are those of its first file and of the rest. -/
theorem outcomes_cons_eq_ok_iff {path : Path} {rest : List Path} :
    pass.outcomes disk (path :: rest) = .ok outcomes ↔
      ∃ first others, pass.outcome path (disk.read path) = .ok first ∧
        pass.outcomes disk rest = .ok others ∧ outcomes = first :: others := by
  rw [Pass.outcomes]
  cases pass.outcome path (disk.read path) with
  | error event => simp
  | ok first =>
      cases pass.outcomes disk rest with
      | error event => simp [Except.map]
      | ok others => simp [Except.map, eq_comm]

/-- The files that are not of the other scenario are those that gave a row or were skipped for
themselves, and as many are of the other scenario as the tally counts. -/
theorem perm_own_files (found : pass.outcomes disk files = .ok outcomes) :
    (files.filter fun path => ! pass.namesOther path).Perm
        ((outcomes.filterMap Outcome.row?).map Row.source ++
          (outcomes.filterMap Outcome.skipped?).map SkippedLog.path) ∧
      (Tally.ofList outcomes).otherScenario = files.countP pass.namesOther := by
  induction files generalizing outcomes with
  | nil =>
      cases found
      exact ⟨.refl _, rfl⟩
  | cons path rest ih =>
      obtain ⟨first, others, judged, later, rfl⟩ := outcomes_cons_eq_ok_iff.mp found
      obtain ⟨parts, counted⟩ := ih later
      have part := part_of_judged (judged ▸ judged_outcome pass path (disk.read path))
      have tally : Tally.ofList (first :: others) = (Tally.ofList others).add first := rfl
      rw [tally]
      cases first with
      | row row =>
          obtain ⟨rfl, own⟩ := part
          simp only [List.filter_cons, List.countP_cons, own, List.filterMap_cons, Outcome.row?,
            Outcome.skipped?, Tally.add]
          exact ⟨parts.cons row.source, counted⟩
      | otherScenario =>
          simp only [List.filter_cons, List.countP_cons, part, List.filterMap_cons, Outcome.row?,
            Outcome.skipped?, Tally.add]
          exact ⟨parts, congrArg (· + 1) counted⟩
      | skipped file =>
          obtain ⟨rfl, own⟩ := part
          simp only [List.filter_cons, List.countP_cons, own, List.filterMap_cons, Outcome.row?,
            Outcome.skipped?, Tally.add]
          exact ⟨(parts.cons file.path).trans List.perm_middle.symm, counted⟩

/-- Of the files that are not of the other scenario each listing is the source of a row or skipped. -/
theorem perm_sources_skipped (found : pass.outcomes disk files = .ok outcomes) :
    (files.filter fun path => ! pass.namesOther path).Perm
      ((pass.results outcomes).rows.map Row.source ++
        (pass.results outcomes).skipped.map SkippedLog.path) := by
  -- The rows that repeat a run leave the rows and join the skipped files.
  have rows : ((outcomes.filterMap Outcome.row?).map Row.source).Perm
      ((pass.results outcomes).rows.map Row.source ++
        ((separate none (sortedRows outcomes)).2.map duplicateOf).map SkippedLog.path) := by
    have separated :=
      ((separate_perm none (sortedRows outcomes)).trans (sortBy_perm _ _)).symm.map Row.source
    rw [List.map_append] at separated
    rw [rows_results, List.map_map]
    exact separated
  have skipped : ((pass.results outcomes).skipped.map SkippedLog.path).Perm
      ((outcomes.filterMap Outcome.skipped?).map SkippedLog.path ++
        ((separate none (sortedRows outcomes)).2.map duplicateOf).map SkippedLog.path) := by
    rw [skipped_results, ← List.map_append]
    exact (sortBy_perm _ _).map SkippedLog.path
  calc
    files.filter (fun path => ! pass.namesOther path)
    List.Perm _ ((outcomes.filterMap Outcome.row?).map Row.source ++
        (outcomes.filterMap Outcome.skipped?).map SkippedLog.path) := (perm_own_files found).1
    List.Perm _ (((pass.results outcomes).rows.map Row.source ++
        ((separate none (sortedRows outcomes)).2.map duplicateOf).map SkippedLog.path) ++
          (outcomes.filterMap Outcome.skipped?).map SkippedLog.path) := rows.append_right _
    List.Perm _ ((pass.results outcomes).rows.map Row.source ++
        ((outcomes.filterMap Outcome.skipped?).map SkippedLog.path ++
          ((separate none (sortedRows outcomes)).2.map duplicateOf).map SkippedLog.path)) := by
        rw [List.append_assoc]
        exact List.perm_append_comm.append_left _
    List.Perm _ _ := skipped.symm.append_left _

/-- Every skipped file has one of the four causes. -/
theorem length_eq_causes (skipped : List SkippedLog) :
    skipped.length = skipped.countP (·.cause matches .unparseableName _) +
      skipped.countP (·.cause matches .unresolved _) +
      skipped.countP (·.cause matches .unreadable _) +
      skipped.countP (·.cause matches .duplicate) := by
  induction skipped with
  | nil => rfl
  | cons file rest ih =>
      obtain ⟨path, cause⟩ := file
      cases cause <;> simp [ih] <;> omega

/-- Every row has one of the three endings. -/
theorem length_eq_endings (rows : List Row) :
    rows.length = rows.countP (·.speedup.status == .crashed) +
      rows.countP (·.speedup.status == .faulted) + rows.countP (·.speedup.status == .valid) := by
  induction rows with
  | nil => rfl
  | cons row rest ih =>
      cases status : row.speedup.status <;> simp [ih, status] <;> omega

/-- No two rows have one source, as the name of a source tells the run of its row. -/
theorem nodup_sources (found : pass.outcomes disk files = .ok outcomes) :
    ((pass.results outcomes).rows.map Row.source).Nodup := by
  have strict : InStrictKeyOrder (pass.results outcomes).rows := by
    rw [rows_results]
    exact inStrictKeyOrder_separate (inKeyOrder_sortedRows outcomes)
  have named : ∀ row ∈ (pass.results outcomes).rows, Run.ofPath row.source = .ok row.run := by
    intro row mem
    obtain ⟨-, -, -, eligible, -⟩ := exists_first_of_mem_rows found mem
    exact eligible.named
  refine List.pairwise_map.mpr (strict.imp_of_mem fun {a b} memA memB smaller same => ?_)
  have run : a.run = b.run := by
    have both := named a memA
    rw [same, named b memB] at both
    exact (Except.ok.inj both).symm
  rw [run, Run.compareKey_eq_eq_iff.mpr rfl] at smaller
  cases smaller

/-- Nothing is skipped exactly if each file of the scenario is the source of a row and none of them
is listed twice. -/
theorem skipped_eq_nil_iff (found : pass.outcomes disk files = .ok outcomes) :
    (pass.results outcomes).skipped = [] ↔
      (∀ path ∈ files, pass.namesOther path = false →
        ∃ row ∈ (pass.results outcomes).rows, row.source = path) ∧
      (files.filter fun path => ! pass.namesOther path).Nodup := by
  have parts := perm_sources_skipped found
  have own (path : Path) : path ∈ files.filter (fun path => ! pass.namesOther path) ↔
      path ∈ files ∧ pass.namesOther path = false := by
    simp
  constructor
  · intro none
    rw [none, List.map_nil, List.append_nil] at parts
    refine ⟨fun path listed scenario => ?_, parts.nodup_iff.mpr (nodup_sources found)⟩
    exact List.mem_map.mp (parts.subset ((own path).mpr ⟨listed, scenario⟩))
  · rintro ⟨sources, once⟩
    have apart := List.disjoint_of_nodup_append (parts.nodup_iff.mp once)
    refine List.eq_nil_iff_forall_not_mem.mpr fun file mem => ?_
    have skipped := List.mem_map_of_mem (f := SkippedLog.path) mem
    obtain ⟨listed, scenario⟩ :=
      (own file.path).mp (parts.symm.subset (List.mem_append_right _ skipped))
    exact apart (List.mem_map.mpr (sources file.path listed scenario)) skipped

theorem accounts_results (found : pass.outcomes disk files = .ok outcomes) :
    Accounts pass files (pass.results outcomes) := by
  have parts := perm_sources_skipped found
  have lengths : outcomes.length = files.length := by
    simpa using (congrArg List.length (map_outcome?_of_outcomes found)).symm
  have others : (pass.results outcomes).summary.otherScenario = files.countP pass.namesOther :=
    (perm_own_files found).2
  have whole : files.Perm ((pass.results outcomes).rows.map Row.source ++
      (pass.results outcomes).skipped.map SkippedLog.path ++ files.filter pass.namesOther) :=
    calc
      files
      List.Perm _ (files.filter pass.namesOther ++
          files.filter fun path => ! pass.namesOther path) := (List.filter_append_perm _ _).symm
      List.Perm _ (files.filter pass.namesOther ++
          ((pass.results outcomes).rows.map Row.source ++
            (pass.results outcomes).skipped.map SkippedLog.path)) := parts.append_left _
      List.Perm _ _ := List.perm_append_comm
  exact {
    listings := whole
    own := fun path mem => by simpa using (List.mem_filter.mp (parts.symm.subset mem)).2
    discovered := lengths
    balance := by
      have total := whole.length_eq
      simp only [List.length_append, List.length_map, ← List.countP_eq_length_filter] at total
      rw [others]
      show outcomes.length = _ + (pass.results outcomes).rows.length +
        (pass.results outcomes).skipped.length
      omega
    otherScenario := others
    processed := rfl
    rows := rfl
    skipped := rfl
    causes := length_eq_causes _
    endings := length_eq_endings _
    inOrder := by
      rw [skipped_results]
      exact pairwise_sortBy _
    allProcessed := by
      have none : (pass.results outcomes).summary.allProcessed = true ↔
          (pass.results outcomes).skipped = [] :=
        beq_iff_eq.trans List.length_eq_zero_iff
      rw [none, skipped_eq_nil_iff found] }

/-- A pass that gives results accounts for every listing of its files exactly once, and its summary
counts what it did with them. -/
theorem collectFiles_accounts {σ : Type} (pass : Pass) (files : List Path)
    (onProgress : Progress → σ → σ) (onComplete : PassSummary → σ → σ) (state : σ) (disk : Disk)
    (output : Collection) (heard : σ) (after : Disk)
    (done : onDisk (pass.collectFiles (Reporter.observing onProgress onComplete) files) state disk =
      ⟨.ok output, heard, after⟩) :
    Accounts pass files output := by
  obtain ⟨-, outcomes, found, rfl⟩ := results_of_onDisk_collectFiles done
  exact accounts_results found

/-- A pass over a log that is listed twice, a log of the other scenario and a file that names no run
accounts for the four listings. -/
theorem collectFiles_accounts_mixed :
    let log := Path.ofString "baseline.single.429.mcf.out"
    let files := [Path.ofString "x.out", log, Path.ofString "malicious.a.b.rate.429.mcf.out", log]
    let pass : Pass := ⟨{}, Catalog.empty.withTrace "429.mcf" 1.0⟩
    let disk : Disk := ⟨.directory [(log.bytes, .file [])]⟩
    let reporter := Reporter.observing (fun _ (heard : Unit) => heard) fun _ heard => heard
    ∃ output, onDisk (pass.collectFiles reporter files) () disk = ⟨.ok output, (), disk⟩ ∧
      Accounts pass files output := by
  intro log files pass disk reporter
  obtain ⟨output, heard, done⟩ := exists_onDisk_collectFiles pass
    (fun _ (heard : Unit) => heard) (fun _ heard => heard) files () disk (by decide)
  exact ⟨output, done, collectFiles_accounts pass files _ _ () disk output heard disk done⟩

/-- A log that is listed twice is the source of a row, and yet not every file gave one. -/
theorem collectFiles_listed_twice :
    let log := Path.ofString "baseline.single.429.mcf.out"
    let pass : Pass := ⟨{}, Catalog.empty.withTrace "429.mcf" 1.0⟩
    let disk : Disk := ⟨.directory [(log.bytes, .file [])]⟩
    let reporter := Reporter.observing (fun _ (heard : Unit) => heard) fun _ heard => heard
    ∃ output, onDisk (pass.collectFiles reporter [log, log]) () disk = ⟨.ok output, (), disk⟩ ∧
      ¬ (output.summary.allProcessed = true ↔ ∀ path ∈ [log, log],
        pass.namesOther path = false → ∃ row ∈ output.rows, row.source = path) := by
  intro log pass disk reporter
  obtain ⟨output, heard, done⟩ := exists_onDisk_collectFiles pass
    (fun _ (heard : Unit) => heard) (fun _ heard => heard) [log, log] () disk (by decide)
  obtain ⟨-, outcomes, found, rfl⟩ := results_of_onDisk_collectFiles done
  refine ⟨_, done, fun sources => ?_⟩
  have accounts := accounts_results found
  have named : Run.ofPath log = .ok ⟨none, "baseline", "none", .single, "single.429.mcf"⟩ :=
    (Run.ofPath_eq_ofFileName "baseline.single.429.mcf.out" (by decide +kernel)).trans rfl
  have own : pass.namesOther log = false := by
    rw [namesOther, named]
    rfl
  have resolved : pass.catalog.soloIpcs ⟨none, "baseline", "none", .single, "single.429.mcf"⟩
      pass.config.collection.machine = .ok [1.0] := by
    rfl
  have read : disk.read log = .ok [] := by
    rfl
  have scored : ∃ row, Eligible pass disk log row ∧
      row.run.key = ⟨"baseline", .single, "none", "single.429.mcf"⟩ :=
    ⟨⟨_, Speedup.ofLog _ [1.0], log⟩, ⟨named, rfl, rfl, [1.0], [], resolved, read, rfl⟩, rfl⟩
  obtain ⟨row, mem, -⟩ := (exists_row_iff found _).mpr ⟨log, List.mem_cons_self, scored⟩
  have source : row.source = log := by
    have listed : row.source ∈ [log, log] := accounts.listings.symm.subset
      (List.mem_append_left _ (List.mem_append_left _ (List.mem_map_of_mem mem)))
    simpa using listed
  have processed := sources.mpr fun path listed _ => by
    have same : path = log := by simpa using listed
    exact ⟨row, mem, source.trans same.symm⟩
  have once := (accounts.allProcessed.mp processed).2
  simp [own] at once

end Pass

end SpeedupStudy
