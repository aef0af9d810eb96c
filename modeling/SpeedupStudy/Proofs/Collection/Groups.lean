/-
# Groups of different workloads

A pass gives one row for each method, mode, configuration and run base, while a normalization
groups rows by method, configuration and a class that takes the place of the mode. The class tells
the mode, so two rows of a group differ in their run bases, and as these start with the same mode,
in their workloads. A mean is therefore taken over at most as many values as there are workloads.
None of this looks at the speedups, so it is true of a table that was written and read back as well.
-/

import SpeedupStudy.Proofs.Collection.Baselines
import SpeedupStudy.Proofs.Collection.Table

namespace SpeedupStudy

/-- The mode of the runs of a class. -/
def ReportClass.mode : ReportClass → Mode
  | single => .single
  | rate => .rate
  | mix => .mix
  | mixHigh => .mix

@[simp]
theorem ReportClass.mode_classify (mode : Mode) (runBase : String) :
    (classify mode runBase).mode = mode := by
  cases mode with
  | single => rfl
  | rate => rfl
  | mix =>
      rw [classify]
      split <;> rfl

namespace Normalization

/-- The rows of a group. -/
def groupOf (key : GroupKey) (table : List Measurement) : List Measurement :=
  table.filter fun row => row.group = key

/-- The rows with a baseline are rows of the table, in its order. -/
theorem sublist_based (table : List Measurement) : ((based table).map (·.1)).Sublist table := by
  have kept : (based table).map (·.1) =
      (candidates table).filter fun row => (baseline? table row.runBase).isSome := by
    rw [based_eq, List.map_filterMap, ← List.filterMap_eq_filter]
    apply List.filterMap_congr
    intro row _
    cases found : baseline? table row.runBase <;> simp [Option.guard, found]
  rw [kept]
  exact List.filter_sublist.trans List.filter_sublist

/-- A group has at most as many values as rows. -/
theorem length_quotients_le (table : List Measurement) (key : GroupKey) :
    (quotients table key).length ≤ (groupOf key table).length := by
  have members : (quotients table key).length ≤
      ((based table).filter fun pair => pair.1.group = key).length := by
    rw [quotients, List.length_map]
    refine (List.monotone_filter_right _ ?_).length_le
    rintro ⟨row, base⟩ counted
    simpa using (Bool.and_eq_true_iff.mp counted).1
  have inGroup : ((based table).filter fun pair => pair.1.group = key).map (·.1) =
      groupOf key ((based table).map (·.1)) := by
    rw [groupOf, List.filter_map]
    rfl
  calc (quotients table key).length
      ≤ (((based table).filter fun pair => pair.1.group = key).map (·.1)).length := by
        rwa [List.length_map]
    _ ≤ (groupOf key table).length := by
        rw [inGroup]
        exact ((sublist_based table).filter _).length_le

/-- The workloads that some rows have for a method and a configuration. -/
def workloadsOf (method config : String) (rows : List Row) : Finset String :=
  ((rows.filter fun row => row.run.method = method ∧ row.run.config = config).map
    fun row => row.run.workload).toFinset

/-- Whether no workload of some rows counts twice where their table is normalized. -/
structure CountsOnce (rows : List Row) (table : List Measurement) : Prop where
  /-- The rows of a group, those without a baseline too, have different run bases. -/
  runBases : ∀ key, ((groupOf key table).map (·.runBase)).Nodup
  means : ∀ group ∈ (ofTable table).groups,
    group.geomean = geometricMean (quotients table group.key)
  values : ∀ key, (quotients table key).length ≤ (workloadsOf key.method key.config rows).card

section Rows

variable {rows : List Row} (strict : Pass.InStrictKeyOrder rows) (key : GroupKey)

/-- The rows that some rows have in a group. -/
def rowsOfGroup (key : GroupKey) (rows : List Row) : List Row :=
  rows.filter fun row => (Measurement.ofRow row).group = key

theorem mem_rowsOfGroup_iff {row : Row} : row ∈ rowsOfGroup key rows ↔
    row ∈ rows ∧ row.run.method = key.method ∧
      ReportClass.classify row.run.mode row.run.runBase = key.reportClass ∧
      row.run.config = key.config := by
  cases key
  rw [rowsOfGroup, List.mem_filter, decide_eq_true_iff, Measurement.group, GroupKey.mk.injEq]
  rfl

include strict

/-- Two rows of a group have one mode and different run bases. -/
theorem pairwise_rowsOfGroup : (rowsOfGroup key rows).Pairwise fun a b =>
    a.run.mode = b.run.mode ∧ a.run.runBase ≠ b.run.runBase := by
  refine List.Pairwise.imp_of_mem ?_ (List.Pairwise.filter _ strict)
  intro a b memA memB less
  obtain ⟨-, methodA, classA, configA⟩ := (mem_rowsOfGroup_iff key).mp memA
  obtain ⟨-, methodB, classB, configB⟩ := (mem_rowsOfGroup_iff key).mp memB
  have mode : a.run.mode = b.run.mode := by
    rw [← ReportClass.mode_classify a.run.mode a.run.runBase, classA, ← classB,
      ReportClass.mode_classify]
  refine ⟨mode, fun base => ?_⟩
  have same : a.run.key = b.run.key := by
    rw [Run.key, methodA, mode, configA, base, ← methodB, ← configB, Run.key]
  rw [Run.compareKey_eq_eq_iff.mpr same] at less
  cases less

theorem nodup_runBase_rowsOfGroup : ((rowsOfGroup key rows).map fun row => row.run.runBase).Nodup :=
  List.pairwise_map.mpr ((pairwise_rowsOfGroup strict key).imp And.right)

variable (good : ∀ row ∈ rows, row.run.WellFormed)

include good

/-- The rows of a group have different workloads, as what precedes these in their run bases is the
same. -/
theorem nodup_workload_rowsOfGroup :
    ((rowsOfGroup key rows).map fun row => row.run.workload).Nodup := by
  refine List.pairwise_map.mpr ((pairwise_rowsOfGroup strict key).imp_of_mem ?_)
  rintro a b memA memB ⟨mode, different⟩ same
  have baseA := (Run.workload_of_wellFormed (good a ((mem_rowsOfGroup_iff key).mp memA).1)).2
  have baseB := (Run.workload_of_wellFormed (good b ((mem_rowsOfGroup_iff key).mp memB).1)).2
  exact different (by rw [baseA, baseB, mode, same])

theorem length_rowsOfGroup_le :
    (rowsOfGroup key rows).length ≤ (workloadsOf key.method key.config rows).card := by
  have number := List.toFinset_card_of_nodup (nodup_workload_rowsOfGroup strict key good)
  rw [List.length_map] at number
  rw [← number]
  apply Finset.card_le_card
  intro workload mem
  obtain ⟨row, found, rfl⟩ := List.mem_map.mp (List.mem_toFinset.mp mem)
  obtain ⟨listed, method, -, config⟩ := (mem_rowsOfGroup_iff key).mp found
  exact List.mem_toFinset.mpr (List.mem_map_of_mem
    (List.mem_filter.mpr ⟨listed, decide_eq_true ⟨method, config⟩⟩))

omit key in
/-- No workload counts twice in a table of rows in strict order, whatever numbers the table has. -/
theorem countsOnce_of_strict {entry : Row → Measurement}
    (keeps : ∀ row, ∃ sum, entry row = { Measurement.ofRow row with sum }) :
    CountsOnce rows (rows.map entry) := by
  have inGroup (key : GroupKey) :
      groupOf key (rows.map entry) = (rowsOfGroup key rows).map entry := by
    rw [groupOf, List.filter_map, rowsOfGroup]
    congr 1
    apply List.filter_congr
    intro row _
    obtain ⟨sum, same⟩ := keeps row
    have group : (entry row).group = (Measurement.ofRow row).group := by
      rw [same]
      rfl
    rw [Function.comp_apply, group]
  refine ⟨fun key => ?_, fun group mem => geomean_of_mem_groups mem, fun key => ?_⟩
  · have runBases : ((rowsOfGroup key rows).map entry).map (·.runBase) =
        (rowsOfGroup key rows).map fun row => row.run.runBase := by
      rw [List.map_map]
      apply List.map_congr_left
      intro row _
      obtain ⟨sum, same⟩ := keeps row
      simp [same, Measurement.ofRow]
    rw [inGroup, runBases]
    exact nodup_runBase_rowsOfGroup strict key
  · refine (length_quotients_le _ key).trans ?_
    rw [inGroup, List.length_map]
    exact length_rowsOfGroup_le strict key good

end Rows

end Normalization

namespace ResultTable

variable {columns : ValueColumns} {output : Collection}

/-- The form with sums can be read back whatever the number of cores is, as it does not tell it. -/
theorem read_render_sum (output : Collection) :
    read (render .sum output).1 = .ok (output.rows.map (readBack .sum)) :=
  @read_render_of_uniform { output with coreCount := 1 } .sum Nat.one_pos (uniform_sum _)

/-- A table without columns of numbers is not read back. -/
theorem read_render_perCore (noCores : output.coreCount = 0) (uniform : Uniform .perCore output) :
    read (render .perCore output).1 = .error (.input .noValueColumns) := by
  have columns : Columns.ofHeader (header .perCore 0) = .error .noValueColumns := by decide +kernel
  rw [read, parse_render uniform, records, noCores]
  simp only [List.map_cons, List.headD_cons, texts_encode, bind, Except.bind, columns,
    Except.mapError]

/-- All that can be read back of a table are its rows, with the sums that the reader takes. -/
theorem eq_map_readBack_of_read (uniform : Uniform columns output) {table : List Measurement}
    (back : read (render columns output).1 = .ok table) :
    table = output.rows.map (readBack columns) := by
  rcases Nat.eq_zero_or_pos output.coreCount with noCores | hasCores
  · cases columns with
    | sum =>
        rw [read_render_sum] at back
        exact (Except.ok.inj back).symm
    | perCore =>
        rw [read_render_perCore noCores uniform] at back
        cases back
  · rw [read_render_of_uniform hasCores uniform] at back
    exact (Except.ok.inj back).symm

end ResultTable

namespace Pass

open ResultTable Normalization

/-- No workload counts twice where the rows of a pass are normalized, be it from memory or from a
table in either form: two rows of a group differ in their run bases, and its mean is taken over at
most as many values as there are workloads with the method and the configuration of the group. The
form with sums can always be written and read back, and the other one if the machine has cores and
memory can list their columns. -/
theorem collectFiles_counts_once {σ : Type} (pass : Pass) (files : List Path)
    (onProgress : Progress → σ → σ) (onComplete : PassSummary → σ → σ) (state heard : σ)
    (disk after : Disk) (output : Collection)
    (done : onDisk (pass.collectFiles (Reporter.observing onProgress onComplete) files) state disk =
      ⟨.ok output, heard, after⟩) :
    CountsOnce output.rows (output.rows.map Measurement.ofRow) ∧
    (∀ columns text broken table, render? columns output = .ok (text, broken) →
      read text = .ok table → broken = none ∧ CountsOnce output.rows table) ∧
    (∃ text table, render? .sum output = .ok (text, none) ∧ read text = .ok table) ∧
    (0 < output.coreCount → fitsInMemory textSize (keyColumns.length + output.coreCount) = true →
      ∃ text table, render? .perCore output = .ok (text, none) ∧ read text = .ok table) := by
  obtain ⟨-, outcomes, found, rfl⟩ := results_of_onDisk_collectFiles done
  have strict := inStrictKeyOrder_results pass outcomes
  have good : ∀ row ∈ (pass.results outcomes).rows, row.run.WellFormed :=
    fun _ mem => wellFormed_of_mem_rows found mem
  have uniform : ∀ columns, Uniform columns (pass.results outcomes)
    | .perCore => fun row mem => length_perCore_of_mem_rows found mem
    | .sum => uniform_sum _
  have whole (columns : ValueColumns) : (render columns (pass.results outcomes)).2 = none :=
    (render_snd_eq_none_iff columns _).mpr (uniform columns)
  refine ⟨countsOnce_of_strict strict good fun row => ⟨row.sum, rfl⟩, ?_, ?_, ?_⟩
  · intro columns text broken table rendered back
    have rendered := eq_render_of_render? rendered
    have text_eq : text = (render columns (pass.results outcomes)).1 := congrArg Prod.fst rendered
    refine ⟨(congrArg Prod.snd rendered).trans (whole columns), ?_⟩
    rw [text_eq] at back
    rw [eq_map_readBack_of_read (uniform columns) back]
    exact countsOnce_of_strict strict good fun row => ⟨readSum columns row, rfl⟩
  · exact ⟨_, _, by rw [render?_sum, ← whole .sum], read_render_sum _⟩
  · intro hasCores listed
    refine ⟨_, _, ?_, read_render_of_uniform hasCores (uniform .perCore)⟩
    rw [← whole .perCore]
    exact if_pos listed

section Sample

/-- The logs of one run in two directories, and of its baseline. -/
def repeatedLogs : List Path :=
  [Path.ofString "new/benign.para.512.single.a.out",
    Path.ofString "old/benign.para.512.single.a.out", Path.ofString "old/baseline.single.a.out"]

/-- A disk with these logs. -/
def repeatedDisk : Disk :=
  ⟨.directory [
    (Utf8.encode "new", .directory [(Utf8.encode "benign.para.512.single.a.out", .file [])]),
    (Utf8.encode "old", .directory [(Utf8.encode "benign.para.512.single.a.out", .file []),
      (Utf8.encode "baseline.single.a.out", .file [])])]⟩

/-- A pass that knows the trace of the run. -/
def repeatedPass : Pass :=
  ⟨{}, Catalog.empty.withTrace "a" 1.0⟩

theorem ofPath_repeatedLogs {path : Path} (mem : path ∈ repeatedLogs) :
    Run.ofPath path = .ok ⟨some .benign, "para", "512", .single, "single.a"⟩ ∨
      Run.ofPath path = .ok ⟨none, "baseline", "none", .single, "single.a"⟩ := by
  simp only [repeatedLogs, List.mem_cons, List.not_mem_nil, or_false] at mem
  rcases mem with rfl | rfl | rfl
  · exact .inl
      ((Run.ofPath_eq_ofFileName "benign.para.512.single.a.out" (by decide +kernel)).trans rfl)
  · exact .inl
      ((Run.ofPath_eq_ofFileName "benign.para.512.single.a.out" (by decide +kernel)).trans rfl)
  · exact .inr ((Run.ofPath_eq_ofFileName "baseline.single.a.out" (by decide +kernel)).trans rfl)

/-- All rows of the logs have one workload. -/
theorem workloadsOf_repeatedLogs {disk : Disk} {outcomes : List Outcome}
    (found : repeatedPass.outcomes disk repeatedLogs = .ok outcomes) (method config : String) :
    workloadsOf method config (repeatedPass.results outcomes).rows ⊆ {"a"} := by
  intro workload mem
  obtain ⟨row, listed, rfl⟩ := List.mem_map.mp (List.mem_toFinset.mp mem)
  obtain ⟨earlier, later, split, eligible, -⟩ :=
    exists_first_of_mem_rows found (List.mem_filter.mp listed).1
  have source : row.source ∈ repeatedLogs := by
    rw [split]
    simp
  rw [Finset.mem_singleton]
  rcases ofPath_repeatedLogs source with named | named <;>
    rw [← Except.ok.inj (named.symm.trans eligible.named)] <;> rfl

end Sample

/-- A run that was logged in two directories has a row and counts once, in a table that was written
with a column for each core as well. -/
theorem collectFiles_counts_once_repeated :
    let reporter := Reporter.observing (fun _ (heard : Unit) => heard) fun _ heard => heard
    ∃ output, onDisk (repeatedPass.collectFiles reporter repeatedLogs) () repeatedDisk =
        ⟨.ok output, (), repeatedDisk⟩ ∧
      (∃ row ∈ output.rows, row.run.method = "para") ∧
      ∃ text table, render? .perCore output = .ok (text, none) ∧ read text = .ok table ∧
        (quotients table ⟨"para", .single, "512"⟩).length ≤ 1 := by
  intro reporter
  obtain ⟨output, heard, done⟩ := exists_onDisk_collectFiles repeatedPass
    (fun _ (heard : Unit) => heard) (fun _ heard => heard) repeatedLogs () repeatedDisk (by decide)
  obtain ⟨-, tables, -, written⟩ := collectFiles_counts_once repeatedPass repeatedLogs _ _ () heard
    repeatedDisk repeatedDisk output done
  obtain ⟨-, outcomes, found, rfl⟩ := results_of_onDisk_collectFiles done
  have named : Run.ofPath (Path.ofString "new/benign.para.512.single.a.out") =
      .ok ⟨some .benign, "para", "512", .single, "single.a"⟩ :=
    (Run.ofPath_eq_ofFileName "benign.para.512.single.a.out" (by decide +kernel)).trans rfl
  have eligible : Eligible repeatedPass repeatedDisk
      (Path.ofString "new/benign.para.512.single.a.out") ⟨_, _, _⟩ :=
    ⟨named, rfl, rfl, [1.0], [], rfl, rfl, rfl⟩
  obtain ⟨row, mem, key⟩ := (exists_row_iff found ⟨"para", .single, "512", "single.a"⟩).mpr
    ⟨_, List.mem_cons_self, _, eligible, rfl⟩
  have cores : (repeatedPass.results outcomes).coreCount = 16 := rfl
  rw [cores] at written
  obtain ⟨text, table, rendered, back⟩ := written (by decide) (by decide)
  refine ⟨_, done, ⟨row, mem, congrArg Run.Key.method key⟩, text, table, rendered, back, ?_⟩
  have values := (tables _ _ _ _ rendered back).2.values ⟨"para", .single, "512"⟩
  exact values.trans (Finset.card_le_card (workloadsOf_repeatedLogs found "para" "512"))

end Pass

end SpeedupStudy
