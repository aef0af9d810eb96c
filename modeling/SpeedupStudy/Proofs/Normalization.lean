/-
# What a table is normalized to

A normalized table has exactly the groups of the rows that have a baseline, each once and in strict
order. The mean of a group is taken over the quotients of its members, in the order of the table,
where members whose baseline is zero have none. Every row that is no baseline is counted, either as
normalized or as one without a baseline.
-/

import SpeedupStudy.Normalization
import SpeedupStudy.Proofs.Run.Order

namespace SpeedupStudy

theorem ReportClass.name_injective {a b : ReportClass} (same : a.name = b.name) : a = b := by
  cases a <;> cases b <;> first | rfl | exact absurd same (by decide)

namespace GroupKey

/-- The order of groups is lexicographic. -/
theorem compare_eq_compareLex :
    GroupKey.compare = compareLex (compareOn method)
      (compareLex (compareOn fun key => key.reportClass.name)
        fun a b => compareConfigs a.config b.config) := by
  funext a b
  rfl

instance : Std.TransCmp fun a b : GroupKey => compareConfigs a.config b.config :=
  transCmp_comap config

instance : Std.TransCmp GroupKey.compare := by
  rw [compare_eq_compareLex]
  infer_instance

/-- The order tells any two groups apart. -/
instance : Std.LawfulEqCmp GroupKey.compare where
  compare_self := Std.ReflCmp.compare_self
  eq_of_compare {a b} same := by
    simp only [GroupKey.compare, Ordering.then_eq_eq, Std.LawfulEqCmp.compare_eq_iff_eq] at same
    obtain ⟨method, reportClass, config⟩ := same
    cases a
    cases b
    cases method
    cases ReportClass.name_injective reportClass
    cases config
    rfl

end GroupKey

section Mean

variable {values : List Float}

end Mean

namespace Normalization

/-- Whether the last baseline of a run base in a table has this speedup. -/
def LastBaseline (rows : List Measurement) (runBase : String) (base : Float) : Prop :=
  ∃ before row after, rows = before ++ row :: after ∧
    (row.method = baselineMethod ∧ row.runBase = runBase) ∧ row.sum = base ∧
      ∀ later ∈ after, ¬ (later.method = baselineMethod ∧ later.runBase = runBase)

/-- Whether a row belongs to a group, and its baseline has this speedup. -/
def Member (rows : List Measurement) (key : GroupKey) (row : Measurement) (base : Float) : Prop :=
  row ∈ rows ∧ row.method ≠ baselineMethod ∧ row.group = key ∧ LastBaseline rows row.runBase base

/-- The speedup of the last of the rows of a table that are baselines of a run base. -/
def lastBaseline? (rows : List Measurement) (runBase : String) : Option Float :=
  (rows.filter fun row => row.method = baselineMethod ∧ row.runBase = runBase).getLast?.map (·.sum)

/-- The rows with a baseline and the speedups of their baselines, in the order of the table. -/
def based (rows : List Measurement) : List (Measurement × Float) :=
  rows.filterMap fun row =>
    if row.method = baselineMethod then none
    else (lastBaseline? rows row.runBase).map (row, ·)

/-- The quotients of the members of a group whose baseline is not zero, in the order of the
table. -/
def quotients (rows : List Measurement) (key : GroupKey) : List Float :=
  ((based rows).filter fun (row, base) => row.group == key && ! base == 0.0).map
    fun (row, base) => row.sum / base

variable {rows : List Measurement} {row : Measurement} {key : GroupKey} {runBase : String}
  {base : Float}

theorem baseline?_eq_some_iff :
    baseline? rows runBase = some base ↔ LastBaseline rows runBase base := by
  have chosen (row : Measurement) : (row.isBaseline && row.runBase == runBase) = true ↔
      row.method = baselineMethod ∧ row.runBase = runBase := by
    rw [Measurement.isBaseline, Bool.and_eq_true, beq_iff_eq, beq_iff_eq]
  rw [baseline?, List.findRev?_eq_find?_reverse, Option.map_eq_some_iff]
  constructor
  · rintro ⟨row, found, sum⟩
    obtain ⟨baseline, after, before, split, others⟩ := List.find?_eq_some_iff_append.mp found
    refine ⟨before.reverse, row, after.reverse, ?_, (chosen row).mp baseline, sum, ?_⟩
    · rw [← List.reverse_reverse rows, split]
      simp
    · intro later mem
      rw [← chosen, Bool.not_eq_true, ← Bool.not_eq_true']
      exact others later (List.mem_reverse.mp mem)
  · rintro ⟨before, row, after, rfl, baseline, sum, others⟩
    refine ⟨row, List.find?_eq_some_iff_append.mpr ⟨(chosen row).mpr baseline, after.reverse,
      before.reverse, by simp, fun later mem => ?_⟩, sum⟩
    rw [Bool.not_eq_true', ← Bool.not_eq_true, chosen]
    exact others later (List.mem_reverse.mp mem)

/-- Searching from the end finds the last baseline. -/
theorem baseline?_eq (rows : List Measurement) (runBase : String) :
    baseline? rows runBase = lastBaseline? rows runBase := by
  have chosen : (fun row : Measurement => row.isBaseline && row.runBase == runBase) =
      fun row => decide (row.method = baselineMethod ∧ row.runBase = runBase) := by
    funext row
    rw [Measurement.isBaseline, Bool.decide_and]
    rfl
  rw [baseline?, lastBaseline?, chosen, List.findRev?_eq_find?_reverse,
    List.getLast?_eq_head?_reverse, ← List.filter_reverse, List.head?_filter]

/-- The rows with a baseline are found among those that are no baselines. -/
theorem based_eq (rows : List Measurement) : based rows =
    (candidates rows).filterMap fun row => (baseline? rows row.runBase).map (row, ·) := by
  rw [based, candidates, List.filterMap_filter]
  refine List.filterMap_congr fun row _ => ?_
  rw [baseline?_eq]
  by_cases baseline : row.method = baselineMethod <;> simp [Measurement.isBaseline, baseline]

theorem mem_based_iff : (row, base) ∈ based rows ↔
    row ∈ rows ∧ row.method ≠ baselineMethod ∧ LastBaseline rows row.runBase base := by
  rw [← baseline?_eq_some_iff, baseline?_eq, based, List.mem_filterMap]
  constructor
  · rintro ⟨row', listed, paired⟩
    rw [Option.ite_none_left_eq_some] at paired
    obtain ⟨other, paired⟩ := paired
    obtain ⟨base', found, same⟩ := Option.map_eq_some_iff.mp paired
    cases same
    exact ⟨listed, other, found⟩
  · rintro ⟨listed, other, found⟩
    exact ⟨row, listed, by rw [if_neg other, found]; rfl⟩

theorem member_iff : (row, base) ∈ based rows ∧ row.group = key ↔ Member rows key row base := by
  rw [mem_based_iff, Member]
  tauto

theorem mem_quotients_iff {x : Float} : x ∈ quotients rows key ↔
    ∃ row base, Member rows key row base ∧ (base == 0.0) = false ∧ row.sum / base = x := by
  simp only [quotients, List.mem_map, List.mem_filter, Bool.and_eq_true, beq_iff_eq,
    Bool.not_eq_true', Prod.exists, ← member_iff, and_assoc]

section Values

variable (rows)

theorem values_eq : values rows =
    (based rows).map fun (row, base) => (row.group, quotient? row.sum base) := by
  rw [values, based_eq, List.map_filterMap]
  simp only [Option.map_map]
  rfl

/-- The defined values of a group are the quotients of its members. -/
theorem valuesOf_values (key : GroupKey) : valuesOf key (values rows) = quotients rows key := by
  rw [valuesOf, values_eq, List.filter_map, List.filterMap_map, quotients,
    ← List.filterMap_eq_map, ← List.filterMap_eq_filter, ← List.filterMap_eq_filter,
    List.filterMap_filterMap, List.filterMap_filterMap]
  apply List.filterMap_congr
  rintro ⟨row, base⟩ -
  by_cases inGroup : row.group = key
  · by_cases zero : (base == 0.0) = true
    · simp [inGroup, quotient?, zero, Option.guard]
    · simp [inGroup, quotient?, zero, Option.guard]
  · simp [inGroup, Option.guard]

/-- The groups are those of the rows with a baseline, whatever mean is taken. -/
theorem groups_ofTableBy (mean : List Float → Option Float) : (ofTableBy mean rows).groups =
    (sortBy GroupKey.compare ((based rows).map fun (row, _) => row.group).eraseDups).map
      fun key => ⟨key, mean (quotients rows key)⟩ := by
  have keys : (values rows).map Prod.fst = (based rows).map fun (row, _) => row.group := by
    rw [values_eq, List.map_map]
    rfl
  simp only [← keys, ← valuesOf_values]
  rfl

/-- There is a group for each row with a baseline and no other, whatever mean is taken. -/
theorem exists_group_iff (mean : List Float → Option Float) (key : GroupKey) :
    (∃ group ∈ (ofTableBy mean rows).groups, group.key = key) ↔
      ∃ row base, Member rows key row base := by
  simp only [groups_ofTableBy, List.mem_map, mem_sortBy, List.mem_eraseDups, ← member_iff]
  constructor
  · rintro ⟨-, ⟨-, ⟨⟨row, base⟩, paired, rfl⟩, rfl⟩, rfl⟩
    exact ⟨row, base, paired, rfl⟩
  · rintro ⟨row, base, paired, rfl⟩
    exact ⟨_, ⟨_, ⟨(row, base), paired, rfl⟩, rfl⟩, rfl⟩

theorem groups_ofTable : (ofTable rows).groups =
    (sortBy GroupKey.compare ((based rows).map fun (row, _) => row.group).eraseDups).map
      fun key => ⟨key, geometricMean (quotients rows key)⟩ :=
  groups_ofTableBy rows geometricMean

end Values

theorem geomean_of_mem_groups {group : GroupMean} (mem : group ∈ (ofTable rows).groups) :
    group.geomean = geometricMean (quotients rows group.key) := by
  rw [groups_ofTable] at mem
  obtain ⟨key, -, rfl⟩ := List.mem_map.mp mem
  rfl

end Normalization

end SpeedupStudy
