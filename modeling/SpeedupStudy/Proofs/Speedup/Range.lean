/-
# The range of speedups

No speedup is negative or undefined, whatever the log of the run holds: a run that reports
throughput has positive cycles, and the rates of a usable catalog are positive and finite. But
counts, rates and cycles are only looked at one by one. So a speedup is infinite exactly if one of
its two quotients is too large for a finite number, and the sum is infinite exactly if a speedup
is or a partial sum is too large. Neither happens as long as the rate of the run is not vast and
no solo rate is tiny.
-/

import SpeedupStudy.Proofs.Binary64.Arithmetic
import SpeedupStudy.Proofs.Catalog.Resolution
import SpeedupStudy.Proofs.Log.Fields
import SpeedupStudy.Proofs.Speedup

namespace SpeedupStudy

open Binary64

section Cycles

variable {log : RunLog} {cycles : Float}

/-- The cycles of a run are at least the inverse of a bound on its rate, as there is some
instruction. -/
theorem RunLog.le_value_cycles (reported : log.cycles? = some cycles)
    (rate : log.ipc.isFinite = true) {bits : Nat} (normal : bits ≤ 1074)
    (bounded : value log.ipc ≤ 2 ^ bits) (finite : cycles.isFinite = true) :
    (2 ^ bits : ℚ)⁻¹ ≤ value cycles := by
  obtain ⟨positive, instructions, rfl⟩ := throughput_of_cycles? reported
  have counted := rounds_toFloat log.total
  have least : 1 ≤ value log.total.toFloat := by
    have one : ((1 : Nat) : ℚ) * 2 ^ (0 : Int) = 1 := by norm_num
    rw [← one]
    refine counted.lower 1 0 (by norm_num) (by norm_num) (isFinite_toFloat log.total) ?_
    rw [one]
    exact_mod_cast instructions
  have rounds := rounds_div counted.nonneg (isFinite_toFloat log.total) positive rate
  have inverse : ((1 : Nat) : ℚ) * 2 ^ (-bits : Int) = (2 ^ bits : ℚ)⁻¹ := by
    rw [Nat.cast_one, one_mul, zpow_neg, zpow_natCast]
  rw [← inverse]
  refine rounds.lower 1 (-bits) (by norm_num) (by omega) finite ?_
  rw [inverse, le_div_iff₀ (value_pos positive rate)]
  exact (inv_mul_le_one_of_le₀ bounded (by positivity)).trans least

/-- The cycles of a run that reports throughput are positive, even if its rate is vast. -/
theorem RunLog.cycles_pos (reported : log.cycles? = some cycles) (rate : log.ipc.isFinite = true) :
    0.0 < cycles := by
  have unsigned : 0.0 ≤ cycles := by
    obtain ⟨positive, -, rfl⟩ := throughput_of_cycles? reported
    exact (div_of_pos (rounds_toFloat log.total).nonneg positive (.inr rate)).1
  refine pos_of_value_pos unsigned fun finite => ?_
  obtain ⟨positive, -⟩ := throughput_of_cycles? reported
  have bounded : value log.ipc ≤ 2 ^ 1024 := by
    have below := (rounds_self (nonneg_of_pos positive) rate).finite_iff.mp rate
    exact below.le.trans overflowBound_le
  exact (inv_pos.mpr (by positivity)).trans_le
    (le_value_cycles reported rate (by norm_num) bounded finite)

end Cycles

section Sum

/-- The sum of one value more adds that value. -/
theorem floatSum_concat (values : List Float) (x : Float) :
    floatSum (values ++ [x]) = floatSum values + x := by
  rw [floatSum, List.foldl_append]
  rfl

theorem atMost_floatSum_nil : AtMost 0 (floatSum []) :=
  atMost_zero .negative rfl le_rfl

/-- Whether some value is too large for the sum of those before it. -/
def PartialSumOverflows (values : List Float) : Prop :=
  ∃ front x rest, values = front ++ x :: rest ∧ SumOverflows (floatSum front) x

theorem partialSumOverflows_concat {values : List Float} {x : Float} :
    PartialSumOverflows (values ++ [x]) ↔
      PartialSumOverflows values ∨ SumOverflows (floatSum values) x := by
  constructor
  · rintro ⟨front, y, rest, split, overflows⟩
    rcases List.eq_nil_or_concat rest with rfl | ⟨rest', z, rfl⟩
    · obtain ⟨rfl, same⟩ := List.append_inj' split rfl
      cases same
      exact .inr overflows
    · rw [List.concat_eq_append, ← List.cons_append, ← List.append_assoc] at split
      exact .inl ⟨front, y, rest', (List.append_inj' split rfl).1, overflows⟩
  · rintro (⟨front, y, rest, rfl, overflows⟩ | overflows)
    · exact ⟨front, y, rest ++ [x], by simp, overflows⟩
    · exact ⟨values, x, [], rfl, overflows⟩

/-- A sum of values that are not negative is infinite only where one of them is or a partial sum
is too large. -/
theorem floatSum_of_nonneg {values : List Float} (nonneg : ∀ x ∈ values, 0.0 ≤ x) :
    0.0 ≤ floatSum values ∧ ((floatSum values).isFinite = false ↔
      (∃ x ∈ values, x.isFinite = false) ∨ PartialSumOverflows values) := by
  induction values using List.reverseRecOn with
  | nil =>
      refine ⟨atMost_floatSum_nil.nonneg, ?_⟩
      simp [atMost_floatSum_nil.finite, PartialSumOverflows]
  | append_singleton values x ih =>
      obtain ⟨nonneg_sum, infinite_iff⟩ := ih fun y mem => nonneg y (List.mem_append_left _ mem)
      obtain ⟨nonneg_sum', infinite_iff'⟩ :=
        add_of_nonneg nonneg_sum (nonneg x List.mem_concat_self)
      rw [floatSum_concat]
      refine ⟨nonneg_sum', ?_⟩
      rw [infinite_iff', infinite_iff, partialSumOverflows_concat]
      simp only [List.mem_append, List.mem_singleton, or_and_right, exists_or, exists_eq_left]
      exact or_or_or_comm

/-- A sum of few bounded values is bounded. -/
theorem atMost_floatSum {values : List Float} {k : Nat} (bounded : ∀ x ∈ values, AtMost (2 ^ k) x)
    (few : values.length ≤ 2 ^ 53) (most : k ≤ 970) :
    AtMost (values.length * 2 ^ k) (floatSum values) := by
  induction values using List.reverseRecOn with
  | nil =>
      rw [List.length_nil, Nat.cast_zero, zero_mul]
      exact atMost_floatSum_nil
  | append_singleton values x ih =>
      rw [List.length_append, List.length_singleton] at few ⊢
      have sum := ih (fun y mem => bounded y (List.mem_append_left _ mem)) (by omega)
      have last := bounded x List.mem_concat_self
      rw [floatSum_concat]
      refine (rounds_add sum.nonneg sum.finite last.nonneg last.finite).atMost few most ?_
      rw [Nat.cast_add_one, add_one_mul]
      exact add_le_add sum.le last.le

end Sum

namespace Speedup

/-- Whether the speedup of a core is too large for a finite number: either its instructions per
cycle or their quotient by its solo rate. -/
def CoreOverflows (log : RunLog) (solo : List Float) (core : Nat) : Prop :=
  ∃ cycles instructions rate, log.cycles? = some cycles ∧ log.perCore[core]? = some instructions ∧
    solo[core]? = some rate ∧ (QuotientOverflows instructions.toFloat cycles ∨
      QuotientOverflows (instructions.toFloat / cycles) rate)

section Core

variable {cycles : Float} {solo? : Option Float}

/-- The speedup of a core in positive cycles is infinite only where a quotient is too large. -/
theorem ofCore_of_pos (positive : 0.0 < cycles)
    (trusted : ∀ rate, solo? = some rate → rate.isFinite = true ∧ 0.0 < rate)
    (instructions : UInt64) :
    0.0 ≤ ofCore cycles instructions solo? ∧ ((ofCore cycles instructions solo?).isFinite = false ↔
      ∃ rate, solo? = some rate ∧ (QuotientOverflows instructions.toFloat cycles ∨
        QuotientOverflows (instructions.toFloat / cycles) rate)) := by
  cases solo? with
  | none =>
      have zero : AtMost 0 0.0 := atMost_zero .positive rfl le_rfl
      exact ⟨zero.nonneg, by simp [ofCore, zero.finite]⟩
  | some rate =>
      obtain ⟨finite, positive'⟩ := trusted rate rfl
      have counted := atMost_toFloat instructions
      obtain ⟨nonneg, infinite_iff⟩ := div_of_pos counted.nonneg positive (.inl counted.finite)
      obtain ⟨nonneg', infinite_iff'⟩ := div_of_pos nonneg positive' (.inr finite)
      rw [ofCore, if_pos positive']
      refine ⟨nonneg', ?_⟩
      rw [infinite_iff', infinite_iff, counted.finite]
      simp

/-- The speedup of a core is bounded if the cycles and the solo rate are not tiny. -/
theorem atMost_ofCore {i j : Nat} (positive : 0.0 < cycles)
    (least : cycles.isFinite = true → (2 ^ i : ℚ)⁻¹ ≤ value cycles)
    (least' : ∀ rate, solo? = some rate → (2 ^ j : ℚ)⁻¹ ≤ value rate) (most : i + j ≤ 906)
    (instructions : UInt64) : AtMost (2 ^ (64 + i + j)) (ofCore cycles instructions solo?) := by
  have zero : AtMost (2 ^ (64 + i + j)) 0.0 := atMost_zero .positive rfl (by positivity)
  cases solo? with
  | none => exact zero
  | some rate =>
      rw [ofCore]
      by_cases positive' : 0.0 < rate
      · rw [if_pos positive']
        exact ((atMost_toFloat instructions).div positive least (by omega)).div positive'
          (fun _ => least' rate rfl) (by omega)
      · rw [if_neg positive']
        exact zero

end Core

section Row

variable {log : RunLog} {solo : List Float} {core : Nat} {x : Float}

/-- A core has speedup zero in a run without throughput, and else the one by its count and rate. -/
theorem entry_cases (here : (ofLog log solo).perCore[core]? = some x) :
    (log.cycles? = none ∧ x = 0.0) ∨ ∃ cycles instructions, log.cycles? = some cycles ∧
      log.perCore[core]? = some instructions ∧ x = ofCore cycles instructions solo[core]? := by
  rw [getElem?_perCore_ofLog, Option.map_eq_some_iff] at here
  obtain ⟨instructions, listed, entry⟩ := here
  cases reported : log.cycles? with
  | none =>
      rw [reported] at entry
      exact .inl ⟨rfl, entry.symm⟩
  | some cycles =>
      rw [reported] at entry
      exact .inr ⟨cycles, instructions, rfl, listed, entry.symm⟩

/-- Whatever the log of a run holds, the speedup of a core is infinite only where a quotient is
too large. -/
theorem perCore_ofLog_of_pos (rate : log.ipc.isFinite = true)
    (trusted : ∀ ipc ∈ solo, ipc.isFinite = true ∧ 0.0 < ipc)
    (here : (ofLog log solo).perCore[core]? = some x) :
    0.0 ≤ x ∧ (x.isFinite = false ↔ CoreOverflows log solo core) := by
  unfold CoreOverflows
  rcases entry_cases here with ⟨silent, rfl⟩ | ⟨cycles, instructions, reported, listed, rfl⟩
  · have zero : AtMost 0 0.0 := atMost_zero .positive rfl le_rfl
    exact ⟨zero.nonneg, by simp [silent, zero.finite]⟩
  · obtain ⟨nonneg, infinite_iff⟩ := ofCore_of_pos (RunLog.cycles_pos reported rate)
      (fun ipc there => trusted ipc (List.mem_of_getElem? there)) instructions
    refine ⟨nonneg, infinite_iff.trans ?_⟩
    simp [reported, listed]

/-- The speedups of a run are bounded if its rate is not vast and no solo rate is tiny. -/
theorem atMost_of_mem_ofLog {i j : Nat} (rate : log.ipc.isFinite = true)
    (bounded : value log.ipc ≤ 2 ^ i) (least : ∀ ipc ∈ solo, (2 ^ j : ℚ)⁻¹ ≤ value ipc)
    (most : i + j ≤ 906) (mem : x ∈ (ofLog log solo).perCore) : AtMost (2 ^ (64 + i + j)) x := by
  obtain ⟨core, here⟩ := List.mem_iff_getElem?.mp mem
  rcases entry_cases here with ⟨-, rfl⟩ | ⟨cycles, instructions, reported, -, rfl⟩
  · exact atMost_zero .positive rfl (by positivity)
  · exact atMost_ofCore (RunLog.cycles_pos reported rate)
      (RunLog.le_value_cycles reported rate (by omega) bounded)
      (fun ipc there => least ipc (List.mem_of_getElem? there)) most instructions

end Row

/-- The range of the speedups of a run with a usable catalog, whatever its log holds. None is
negative or undefined, and neither is their sum. A speedup is infinite exactly if one of its two
quotients is too large, and the sum exactly if a speedup is or a partial sum is too large. All are
finite where the rate of the run is at most a power of two, each solo rate is at least the inverse
of another one, and neither the powers nor the number of cores are vast. -/
theorem finite_unless_overflow {c : Catalog} {run : Run} {machine : Machine} {solo : List Float}
    (usable : c.problem? = none) (resolved : c.soloIpcs run machine = .ok solo)
    (reader : LogReader) (bytes : Bytes) :
    let log := reader.read bytes
    let row := ofLog log solo
    (∀ x ∈ row.perCore, 0.0 ≤ x) ∧ 0.0 ≤ row.sum ∧
    (∀ core x, row.perCore[core]? = some x → (x.isFinite = false ↔ CoreOverflows log solo core)) ∧
    (row.sum.isFinite = false ↔
      (∃ x ∈ row.perCore, x.isFinite = false) ∨ PartialSumOverflows row.perCore) ∧
    ∀ i j : Nat, i + j ≤ 906 → value log.ipc ≤ 2 ^ i →
      (∀ ipc ∈ solo, (2 ^ j : ℚ)⁻¹ ≤ value ipc) → row.perCore.length ≤ 2 ^ 53 →
      (∀ x ∈ row.perCore, x.isFinite = true) ∧ row.sum.isFinite = true := by
  intro log row
  have rate : log.ipc.isFinite = true := by
    have same : log.ipc = LogScan.lastIpc bytes := congrArg RunLog.ipc (reader.read_eq bytes)
    rw [same]
    exact LogScan.isFinite_lastIpc bytes
  have trusted : ∀ ipc ∈ solo, ipc.isFinite = true ∧ 0.0 < ipc :=
    fun ipc mem => Catalog.trusted_of_mem_soloIpcs usable resolved mem
  have nonneg : ∀ x ∈ row.perCore, 0.0 ≤ x := by
    intro x mem
    obtain ⟨core, here⟩ := List.mem_iff_getElem?.mp mem
    exact (perCore_ofLog_of_pos rate trusted here).1
  obtain ⟨nonneg_sum, infinite_sum⟩ := floatSum_of_nonneg nonneg
  refine ⟨nonneg, nonneg_sum, fun core x here => (perCore_ofLog_of_pos rate trusted here).2,
    infinite_sum, fun i j most bounded least few => ?_⟩
  have entries : ∀ x ∈ row.perCore, AtMost (2 ^ (64 + i + j)) x :=
    fun x mem => atMost_of_mem_ofLog rate bounded least most mem
  exact ⟨fun x mem => (entries x mem).finite, (atMost_floatSum entries few (by omega)).finite⟩

/-- The log of two cores at an ordinary rate. -/
def ordinaryLog : Bytes :=
  Utf8.encode ("  -- th[0] : retired 300 instrs\n  -- th[1] : retired 100 instrs\n" ++
    "  -- total number of fetched instructions : 400 (IPC = 1.5)\n")

/-- The log of a core whose rate is a vast number, though a finite one. -/
def vastLog : Bytes :=
  Utf8.encode ("  -- th[0] : retired 256 instrs\n" ++
    "  -- total number of fetched instructions : 1 (IPC = 1.1235582092889474e307)\n")

/-- A run of two cores at an ordinary rate has finite speedups and a finite sum. -/
theorem finite_unless_overflow_two_cores :
    let c := Catalog.empty.withTrace "a" 0.5
    let run : Run := ⟨some .benign, "hydra", "1024", .rate, "rate.a"⟩
    let log := LogReader.read ⟨2, defaultFaultMarker⟩ ordinaryLog
    let row := ofLog log [0.5, 0.5]
    c.problem? = none ∧ c.soloIpcs run ⟨2, 0⟩ = .ok [0.5, 0.5] ∧ row.perCore = [2.25, 0.75] ∧
      (∀ x ∈ row.perCore, x.isFinite = true) ∧ row.sum.isFinite = true := by
  intro c run log row
  have usable : c.problem? = none := by decide +kernel
  have resolved : c.soloIpcs run ⟨2, 0⟩ = .ok [0.5, 0.5] := by decide +kernel
  obtain ⟨-, -, -, -, finite⟩ :=
    finite_unless_overflow usable resolved ⟨2, defaultFaultMarker⟩ ordinaryLog
  have rate : value log.ipc ≤ 2 ^ 1 := by decide +kernel
  have least : ∀ ipc ∈ [0.5, 0.5], (2 ^ 1 : ℚ)⁻¹ ≤ value ipc := by
    intro ipc mem
    rw [List.eq_of_mem_replicate (n := 2) mem]
    decide +kernel
  exact ⟨usable, resolved, by decide +kernel, finite 1 1 (by decide) rate least (by decide +kernel)⟩

/-- A valid run of one program has an infinite speedup and an infinite sum, though the exact speedup
by its log is an ordinary number: its instructions per cycle are vast, and so is the solo rate. -/
theorem infinite_valid_row :
    let solo : Float := 1.0715086071862673e301
    let c := Catalog.empty.withTrace "a" solo
    let run : Run := ⟨none, "baseline", "none", .single, "single.a"⟩
    let log := LogReader.read ⟨2, defaultFaultMarker⟩ vastLog
    let row := ofLog log [solo]
    c.problem? = none ∧ c.soloIpcs run ⟨2, 0⟩ = .ok [solo] ∧ log.perCore = [256, 0] ∧
      log.total = 1 ∧ row.status = .valid ∧ row.perCore = [1.0 / 0.0, 0.0] ∧ row.sum = 1.0 / 0.0 ∧
      256 / (1 / value log.ipc) / value solo = 268435456 := by
  refine ⟨?_, ?_, ?_, ?_, ?_, ?_, ?_, ?_⟩ <;> decide +kernel

end Speedup

end SpeedupStudy
