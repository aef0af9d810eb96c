/-
# Speedups by their logs

A run ends as its log tells, and each core has a speedup by its own count and rate. No speedup
carries a minus sign, since counts do not and rates are only used where they are positive. The sum
of the speedups of a run is therefore the same whether it starts at plus or at minus zero, as long
as there is a core.
-/

import SpeedupStudy.Proofs.Binary64.Unsigned
import SpeedupStudy.Speedup

namespace SpeedupStudy

open Binary64

/-- The throughput that cycles are computed from. -/
theorem RunLog.throughput_of_cycles? {log : RunLog} {cycles : Float}
    (reported : log.cycles? = some cycles) :
    0.0 < log.ipc ∧ 0 < log.total ∧ cycles = log.total.toFloat / log.ipc := by
  unfold cycles? at reported
  by_cases completed : log.completed = true
  · rw [if_pos completed, Option.some.injEq] at reported
    obtain ⟨rate, instructions⟩ := Bool.and_eq_true_iff.mp completed
    exact ⟨of_decide_eq_true rate, of_decide_eq_true instructions, reported.symm⟩
  · rw [if_neg completed] at reported
    cases reported

/-- A run that reported throughput has cycles without a minus sign. -/
theorem unsigned_of_cycles? {log : RunLog} {cycles : Float} (reported : log.cycles? = some cycles) :
    Unsigned cycles := by
  obtain ⟨rate, -, rfl⟩ := RunLog.throughput_of_cycles? reported
  exact (unsigned_toFloat log.total).div (unsigned_of_pos rate)

namespace Speedup

theorem status_ofLog (log : RunLog) (solo : List Float) :
    (ofLog log solo).status =
      if log.fault then .faulted else if log.completed then .valid else .crashed := by
  unfold ofLog RunLog.cycles?
  cases log.completed <;> rfl

/-- The speedup of a core by its count and its solo rate. -/
theorem getElem?_perCore_ofLog (log : RunLog) (solo : List Float) (core : Nat) :
    (ofLog log solo).perCore[core]? = log.perCore[core]?.map fun instructions =>
      match log.cycles? with
      | none => 0.0
      | some cycles => ofCore cycles instructions solo[core]? := by
  unfold ofLog
  cases log.cycles? with
  | none =>
      simp only [List.getElem?_replicate]
      by_cases listed : core < log.perCore.length
      · rw [if_pos listed, List.getElem?_eq_getElem listed]
        rfl
      · rw [if_neg listed, List.getElem?_eq_none (Nat.le_of_not_lt listed)]
        rfl
  | some cycles =>
      simp only [List.getElem?_map, List.getElem?_zipIdx, Option.map_map, Nat.zero_add]
      rfl

theorem unsigned_ofCore {cycles : Float} (unsigned : Unsigned cycles) (instructions : UInt64)
    (solo : Option Float) : Unsigned (ofCore cycles instructions solo) := by
  cases solo with
  | none => exact unsigned_zero
  | some rate =>
      by_cases positive : 0.0 < rate
      · rw [ofCore, if_pos positive]
        exact ((unsigned_toFloat instructions).div unsigned).div (unsigned_of_pos positive)
      · rw [ofCore, if_neg positive]
        exact unsigned_zero

/-- No core of a run has a speedup with a minus sign. -/
theorem unsigned_of_mem_ofLog {log : RunLog} {solo : List Float} {x : Float}
    (mem : x ∈ (ofLog log solo).perCore) : Unsigned x := by
  unfold ofLog at mem
  cases reported : log.cycles? with
  | none =>
      rw [reported] at mem
      rw [List.eq_of_mem_replicate mem]
      exact unsigned_zero
  | some cycles =>
      rw [reported] at mem
      obtain ⟨⟨instructions, core⟩, -, rfl⟩ := List.mem_map.mp mem
      exact unsigned_ofCore (unsigned_of_cycles? reported) instructions solo[core]?

end Speedup

/-- A sum that starts at minus zero starts at the first value. -/
theorem floatSum_cons (x : Float) (values : List Float) :
    floatSum (x :: values) = values.foldl (· + ·) x := by
  rw [floatSum, List.foldl_cons, negZero_add]

theorem unsigned_foldl {x : Float} {values : List Float} (first : Unsigned x)
    (unsigned : ∀ y ∈ values, Unsigned y) : Unsigned (values.foldl (· + ·) x) := by
  induction values generalizing x with
  | nil => exact first
  | cons y rest ih =>
      have here := unsigned y List.mem_cons_self
      exact ih (first.add here) fun z mem => unsigned z (List.mem_cons_of_mem y mem)

/-- The sum of some values without a minus sign has none, unless there are no values. -/
theorem unsigned_floatSum {values : List Float} (nonempty : values ≠ [])
    (unsigned : ∀ x ∈ values, Unsigned x) : Unsigned (floatSum values) := by
  obtain ⟨x, rest, rfl⟩ := List.exists_cons_of_ne_nil nonempty
  rw [floatSum_cons]
  exact unsigned_foldl (unsigned x List.mem_cons_self) fun y mem =>
    unsigned y (List.mem_cons_of_mem x mem)

/-- The sum of some values without a minus sign may start at plus zero, unless there are no
values. -/
theorem foldl_zero_eq_floatSum {values : List Float} (nonempty : values ≠ [])
    (unsigned : ∀ x ∈ values, Unsigned x) : values.foldl (· + ·) 0.0 = floatSum values := by
  obtain ⟨x, rest, rfl⟩ := List.exists_cons_of_ne_nil nonempty
  rw [floatSum_cons, List.foldl_cons, Binary64.zero_add (unsigned x List.mem_cons_self)]

/-- The sum of zeros is zero. -/
theorem floatSum_zeros {values : List Float} (nonempty : values ≠ [])
    (zeros : ∀ x ∈ values, x = 0.0) : floatSum values = 0.0 := by
  have unsigned : ∀ x ∈ values, Unsigned x := fun x mem => zeros x mem ▸ unsigned_zero
  rw [← foldl_zero_eq_floatSum nonempty unsigned]
  clear nonempty unsigned
  induction values with
  | nil => rfl
  | cons x rest ih =>
      rw [List.foldl_cons, zeros x List.mem_cons_self, Binary64.zero_add unsigned_zero]
      exact ih fun y mem => zeros y (List.mem_cons_of_mem x mem)

end SpeedupStudy
