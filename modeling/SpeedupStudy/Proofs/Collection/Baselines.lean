/-
# The baselines of a run base

The rows of a pass are told apart by their configurations, too, while a normalization looks for the
baseline of a run base whatever its configuration is. So a run base has several baselines where logs
with several configurations were scored. They are in the order of their configurations, as the mode
of a run is part of its run base, and the last of them is the one that counts.
-/

import SpeedupStudy.Proofs.Calibration
import SpeedupStudy.Proofs.Collection.Scores
import SpeedupStudy.Proofs.Normalization
import SpeedupStudy.Table.Normalized

namespace SpeedupStudy

/-- The modes differ in the first letters of their names. -/
theorem Mode.eq_of_head?_name {a b : Mode} (same : a.name.toList.head? = b.name.toList.head?) :
    a = b := by
  cases a <;> cases b <;> first | rfl | exact absurd same (by decide)

/-- The mode of a run can be told from its run base. -/
theorem Run.mode_eq_of_runBase_eq {a b : Run} (wellFormed : a.WellFormed)
    (wellFormed' : b.WellFormed) (same : a.runBase = b.runBase) : a.mode = b.mode := by
  have first : ∀ (mode : Mode) (workload : String),
      (mode.name ++ "." ++ workload).toList.head? = mode.name.toList.head? := by
    intro mode workload
    cases mode <;> simp [Mode.name]
  obtain ⟨workload, -, base⟩ := wellFormed.runBase
  obtain ⟨workload', -, base'⟩ := wellFormed'.runBase
  apply Mode.eq_of_head?_name
  rw [← first a.mode workload, ← first b.mode workload', ← base, ← base', same]

namespace Pass

/-- The rows of the baseline runs of a run base. -/
def baselinesOf (runBase : String) (rows : List Row) : List Row :=
  rows.filter fun row => row.run.isBaseline && row.run.runBase == runBase

theorem mem_baselinesOf_iff {runBase : String} {rows : List Row} {row : Row} :
    row ∈ baselinesOf runBase rows ↔
      row ∈ rows ∧ row.run.method = baselineMethod ∧ row.run.runBase = runBase := by
  simp [baselinesOf, Run.isBaseline]

variable {pass : Pass} {disk : Disk} {files : List Path} {outcomes : List Outcome}
  {runBase : String}

/-- The rows of a pass are in strict order. -/
theorem inStrictKeyOrder_results (pass : Pass) (outcomes : List Outcome) :
    InStrictKeyOrder (pass.results outcomes).rows := by
  rw [rows_results]
  exact inStrictKeyOrder_separate (inKeyOrder_sortedRows outcomes)

theorem wellFormed_of_mem_rows (found : pass.outcomes disk files = .ok outcomes) {row : Row}
    (mem : row ∈ (pass.results outcomes).rows) : row.run.WellFormed := by
  obtain ⟨-, -, -, eligible, -⟩ := exists_first_of_mem_rows found mem
  exact Run.wellFormed_of_ofPath eligible.named

/-- The baselines of a run base have different configurations, and they are in the order of
these. -/
theorem pairwise_baselinesOf (runBase : String) (found : pass.outcomes disk files = .ok outcomes) :
    (baselinesOf runBase (pass.results outcomes).rows).Pairwise fun a b =>
      compareConfigs a.run.config b.run.config = .lt := by
  have strict := (inStrictKeyOrder_results pass outcomes).filter
    fun row => row.run.isBaseline && row.run.runBase == runBase
  refine List.Pairwise.imp_of_mem ?_ strict
  intro a b memA memB less
  obtain ⟨listedA, methodA, baseA⟩ := mem_baselinesOf_iff.mp memA
  obtain ⟨listedB, methodB, baseB⟩ := mem_baselinesOf_iff.mp memB
  have mode := Run.mode_eq_of_runBase_eq (wellFormed_of_mem_rows found listedA)
    (wellFormed_of_mem_rows found listedB) (baseA.trans baseB.symm)
  simp only [Run.compareKey, methodA, methodB, mode, baseA, baseB, Std.ReflOrd.compare_self,
    Ordering.eq_then] at less
  cases order : compareConfigs a.run.config b.run.config <;> simp [order] at less ⊢

/-- Whether a pass can score a file as the log of a baseline of this run base and configuration. -/
def ScoresBaseline (pass : Pass) (disk : Disk) (runBase config : String) (path : Path) : Prop :=
  ∃ row, Eligible pass disk path row ∧ row.run.method = baselineMethod ∧
    row.run.runBase = runBase ∧ row.run.config = config

/-- A run base has a baseline with a configuration exactly if the log of one can be scored. -/
theorem exists_baseline_iff (runBase : String) (found : pass.outcomes disk files = .ok outcomes)
    (config : String) :
    (∃ row ∈ baselinesOf runBase (pass.results outcomes).rows, row.run.config = config) ↔
      ∃ path ∈ files, pass.ScoresBaseline disk runBase config path := by
  constructor
  · rintro ⟨row, mem, rfl⟩
    obtain ⟨listed, method, base⟩ := mem_baselinesOf_iff.mp mem
    obtain ⟨earlier, later, rfl, eligible, -⟩ := exists_first_of_mem_rows found listed
    exact ⟨row.source, by simp, row, eligible, method, base, rfl⟩
  · rintro ⟨path, listed, row, eligible, method, base, rfl⟩
    obtain ⟨row', mem, same⟩ :=
      (exists_row_iff found row.run.key).mpr ⟨path, listed, row, eligible, rfl⟩
    simp only [Run.key, Run.Key.mk.injEq] at same
    obtain ⟨method', -, config, base'⟩ := same
    exact ⟨row', mem_baselinesOf_iff.mpr ⟨mem, method'.trans method, base'.trans base⟩, config⟩

/-- A run base has at most one baseline exactly if all logs of its baselines that can be scored have
one configuration. -/
theorem length_baselinesOf_le_one_iff (found : pass.outcomes disk files = .ok outcomes) :
    (baselinesOf runBase (pass.results outcomes).rows).length ≤ 1 ↔
      ∀ path ∈ files, ∀ path' ∈ files, ∀ config config',
        pass.ScoresBaseline disk runBase config path →
        pass.ScoresBaseline disk runBase config' path' → config = config' := by
  constructor
  · intro single path listed path' listed' config config' scores scores'
    have configs := exists_baseline_iff runBase found
    obtain ⟨row, mem, rfl⟩ := (configs config).mpr ⟨path, listed, scores⟩
    obtain ⟨row', mem', rfl⟩ := (configs config').mpr ⟨path', listed', scores'⟩
    generalize baselinesOf runBase (pass.results outcomes).rows = baselines at single mem mem'
    match baselines, single with
    | [only], _ => rw [List.mem_singleton.mp mem, List.mem_singleton.mp mem']
  · intro same
    have ordered := pairwise_baselinesOf runBase found
    have configs := exists_baseline_iff runBase found
    generalize baselinesOf runBase (pass.results outcomes).rows = baselines at ordered configs ⊢
    match baselines with
    | [] => exact Nat.zero_le 1
    | [only] => exact Nat.le_refl 1
    | first :: second :: rest =>
        have less := (List.pairwise_cons.mp ordered).1 second List.mem_cons_self
        obtain ⟨path, listed, scores⟩ :=
          (configs first.run.config).mp ⟨first, List.mem_cons_self, rfl⟩
        obtain ⟨path', listed', scores'⟩ :=
          (configs second.run.config).mp ⟨second, List.mem_cons_of_mem _ List.mem_cons_self, rfl⟩
        have reflexive : ∀ config, compareConfigs config config = .eq :=
          fun _ => Std.ReflCmp.compare_self
        rw [same path listed path' listed' _ _ scores scores', reflexive] at less
        cases less

/-- The last baseline of a run base has the greatest configuration. -/
theorem eq_or_lt_of_getLast?_baselinesOf (found : pass.outcomes disk files = .ok outcomes)
    {reference : Row}
    (last : (baselinesOf runBase (pass.results outcomes).rows).getLast? = some reference)
    {row : Row} (mem : row ∈ baselinesOf runBase (pass.results outcomes).rows) :
    row = reference ∨ compareConfigs row.run.config reference.run.config = .lt := by
  have ordered := pairwise_baselinesOf runBase found
  obtain ⟨others, split⟩ := List.getLast?_eq_some_iff.mp last
  rw [split] at mem ordered
  rcases List.mem_append.mp mem with earlier | same
  · exact .inr ((List.pairwise_append.mp ordered).2.2 row earlier reference (by simp))
  · exact .inl (List.mem_singleton.mp same)

/-- The speedup that a run base is divided by is that of the last of its baselines. -/
theorem baseline?_ofRows (rows : List Row) (runBase : String) :
    Normalization.baseline? (rows.map Measurement.ofRow) runBase =
      (baselinesOf runBase rows).getLast?.map Row.sum := by
  rw [Normalization.baseline?, List.findRev?_eq_find?_reverse, ← List.map_reverse, List.find?_map,
    baselinesOf, List.getLast?_eq_head?_reverse, ← List.filter_reverse, List.head?_filter,
    Option.map_map]
  rfl

/-- Each row that is no baseline is divided by the last baseline of its run base. -/
theorem values_ofRows (rows : List Row) :
    Normalization.values (rows.map Measurement.ofRow) =
      (Normalization.candidates (rows.map Measurement.ofRow)).filterMap fun row =>
        (baselinesOf row.runBase rows).getLast?.map fun reference =>
          (row.group, Normalization.quotient? row.sum reference.sum) := by
  simp only [Normalization.values, baseline?_ofRows, Option.map_map, Function.comp_def]

/-- The baselines of a run base in the results of a pass. There is at most one with each
configuration, and one exactly for the configurations of the logs that can be scored. So there is at
most one baseline exactly if these logs have one configuration. Where there are several, the last
one has the greatest configuration, and normalizing the results divides each other row of the run
base by this one baseline. -/
theorem collectFiles_baselines {σ : Type} (pass : Pass) (files : List Path)
    (onProgress : Progress → σ → σ) (onComplete : PassSummary → σ → σ) (state heard : σ)
    (disk after : Disk) (output : Collection) (runBase : String)
    (done : onDisk (pass.collectFiles (Reporter.observing onProgress onComplete) files) state disk =
      ⟨.ok output, heard, after⟩) :
    let baselines := baselinesOf runBase output.rows
    (baselines.Pairwise fun a b => compareConfigs a.run.config b.run.config = .lt) ∧
    (∀ config, (∃ row ∈ baselines, row.run.config = config) ↔
      ∃ path ∈ files, pass.ScoresBaseline disk runBase config path) ∧
    (baselines.length ≤ 1 ↔ ∀ path ∈ files, ∀ path' ∈ files, ∀ config config',
      pass.ScoresBaseline disk runBase config path →
      pass.ScoresBaseline disk runBase config' path' → config = config') ∧
    (∀ reference, baselines.getLast? = some reference → ∀ row ∈ baselines,
      row = reference ∨ compareConfigs row.run.config reference.run.config = .lt) ∧
    Normalization.values (output.rows.map Measurement.ofRow) =
      (Normalization.candidates (output.rows.map Measurement.ofRow)).filterMap fun row =>
        (baselinesOf row.runBase output.rows).getLast?.map fun reference =>
          (row.group, Normalization.quotient? row.sum reference.sum) := by
  obtain ⟨-, outcomes, found, rfl⟩ := results_of_onDisk_collectFiles done
  intro baselines
  exact ⟨pairwise_baselinesOf runBase found, exists_baseline_iff runBase found,
    length_baselinesOf_le_one_iff found,
    fun _ last _ => eq_or_lt_of_getLast?_baselinesOf found last, values_ofRows _⟩

section Sample

/-- The log of a baseline of one rate run with a configuration. -/
def baselineLog (config : String) : Path :=
  Path.ofString ("benign.baseline." ++ config ++ ".rate.a.out")

/-- A pass that knows the trace of this run, on one core. -/
def baselinePass : Pass :=
  ⟨{ collection := { coreCount := 1 } }, Catalog.empty.withTrace "a" 1.0⟩

/-- A disk with the logs of two baselines. -/
def baselineDisk : Disk :=
  ⟨.directory [((baselineLog "512").bytes, .file []), ((baselineLog "none").bytes, .file [])]⟩

theorem ofPath_baselineLog {config : String} (mem : config ∈ ["none", "512"]) :
    Run.ofPath (baselineLog config) =
      .ok ⟨some .benign, "baseline", config, .rate, "rate.a"⟩ := by
  rcases List.mem_pair.mp mem with rfl | rfl
  · exact (Run.ofPath_eq_ofFileName "benign.baseline.none.rate.a.out" (by decide +kernel)).trans rfl
  · exact (Run.ofPath_eq_ofFileName "benign.baseline.512.rate.a.out" (by decide +kernel)).trans rfl

theorem scoresBaseline_sample {config : String} (mem : config ∈ ["none", "512"]) :
    baselinePass.ScoresBaseline baselineDisk "rate.a" config (baselineLog config) := by
  have named := ofPath_baselineLog mem
  rcases List.mem_pair.mp mem with rfl | rfl <;>
    exact ⟨⟨_, _, _⟩, ⟨named, rfl, rfl, [1.0], [], rfl, rfl, rfl⟩, rfl, rfl, rfl⟩

theorem config_of_scoresBaseline {config config' runBase : String} (mem : config ∈ ["none", "512"])
    (scores : baselinePass.ScoresBaseline baselineDisk runBase config' (baselineLog config)) :
    config' = config := by
  obtain ⟨row, eligible, -, -, rfl⟩ := scores
  have named := eligible.named
  rw [ofPath_baselineLog mem, Except.ok.injEq] at named
  rw [← named]

/-- The pass over both logs gives results. -/
theorem exists_onDisk_collectFiles_baselines : ∃ output,
    onDisk (baselinePass.collectFiles (Reporter.observing (fun _ (heard : Unit) => heard)
      fun _ heard => heard) [baselineLog "none", baselineLog "512"]) () baselineDisk =
        ⟨.ok output, (), baselineDisk⟩ := by
  obtain ⟨output, heard, done⟩ := exists_onDisk_collectFiles baselinePass
    (fun _ (heard : Unit) => heard) (fun _ heard => heard) [baselineLog "none", baselineLog "512"]
    () baselineDisk (by decide)
  exact ⟨output, done⟩

end Sample

/-- Of two baselines of a run base, one with a number and one without, the one without is the last
and divides the other rows. -/
theorem collectFiles_baselines_two_configs :
    let reporter := Reporter.observing (fun _ (heard : Unit) => heard) fun _ heard => heard
    ∃ output, onDisk (baselinePass.collectFiles reporter [baselineLog "none", baselineLog "512"]) ()
        baselineDisk = ⟨.ok output, (), baselineDisk⟩ ∧
      ¬ (baselinesOf "rate.a" output.rows).length ≤ 1 ∧
      ∃ reference, (baselinesOf "rate.a" output.rows).getLast? = some reference ∧
        reference.run.config = "none" := by
  intro reporter
  obtain ⟨output, done⟩ := exists_onDisk_collectFiles_baselines
  obtain ⟨-, configs, single, last, -⟩ := collectFiles_baselines baselinePass _ _ _ () ()
    baselineDisk baselineDisk output "rate.a" done
  have plain := @scoresBaseline_sample "none" (by simp)
  have numbered := @scoresBaseline_sample "512" (by simp)
  refine ⟨output, done, fun few => ?_, ?_⟩
  · have same := single.mp few _ (by simp) _ (by simp) _ _ plain numbered
    exact absurd same (by decide)
  · obtain ⟨row, mem, config⟩ := (configs "none").mpr ⟨_, by simp, plain⟩
    obtain ⟨reference, found⟩ :=
      Option.isSome_iff_exists.mp (List.getLast?_isSome.mpr (List.ne_nil_of_mem mem))
    refine ⟨reference, found, ?_⟩
    rcases last reference found row mem with rfl | less
    · exact config
    · obtain ⟨path, listed, scores⟩ :=
        (configs reference.run.config).mp ⟨reference, List.mem_of_getLast? found, rfl⟩
      rcases List.mem_pair.mp listed with rfl | rfl
      · exact config_of_scoresBaseline (by simp) scores
      · have numbered := config_of_scoresBaseline (by simp) scores
        rw [config, numbered] at less
        exact absurd less (by decide +kernel)

/-- Two logs of baselines of one run base that differ in their configurations both have a row. -/
theorem collectFiles_baselines_not_unique :
    let reporter := Reporter.observing (fun _ (heard : Unit) => heard) fun _ heard => heard
    ∃ output, onDisk (baselinePass.collectFiles reporter [baselineLog "none", baselineLog "512"]) ()
        baselineDisk = ⟨.ok output, (), baselineDisk⟩ ∧
      ∃ a ∈ output.rows, ∃ b ∈ output.rows, a ≠ b ∧
        a.run.method = baselineMethod ∧ b.run.method = baselineMethod ∧
        a.run.runBase = "rate.a" ∧ b.run.runBase = "rate.a" := by
  intro reporter
  obtain ⟨output, done⟩ := exists_onDisk_collectFiles_baselines
  obtain ⟨-, outcomes, found, rfl⟩ := results_of_onDisk_collectFiles done
  have scored : ∀ config ∈ ["none", "512"], ∃ row ∈ baselinesOf "rate.a"
      (baselinePass.results outcomes).rows, row.run.config = config := by
    intro config mem
    refine (exists_baseline_iff "rate.a" found config).mpr ⟨_, ?_, scoresBaseline_sample mem⟩
    exact List.mem_pair.mpr
      ((List.mem_pair.mp mem).imp (congrArg baselineLog) (congrArg baselineLog))
  obtain ⟨a, memA, configA⟩ := scored "none" (by simp)
  obtain ⟨b, memB, configB⟩ := scored "512" (by simp)
  obtain ⟨listedA, methodA, baseA⟩ := mem_baselinesOf_iff.mp memA
  obtain ⟨listedB, methodB, baseB⟩ := mem_baselinesOf_iff.mp memB
  refine ⟨_, done, a, listedA, b, listedB, ?_, methodA, methodB, baseA, baseB⟩
  rintro rfl
  exact absurd (configA.symm.trans configB) (by decide)

end Pass

end SpeedupStudy
