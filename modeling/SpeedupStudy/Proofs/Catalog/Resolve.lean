/-
# The program on each core

The solo rates of a run are listed from core 0 on. Read core by core the list says what runs there:
one program on all cores that the scenario leaves in a rate run, the trace that the mix assigns after
the reserved slots in a mix run, and the program on the first core alone in a single run.
-/

import SpeedupStudy.Catalog.Resolve

namespace SpeedupStudy

/-- The number of cores on which a run has a program of its own. They are the first ones. -/
def Run.programCores (run : Run) (machine : Machine) : Nat :=
  match run.mode with
  | .single => min machine.coreCount 1
  | .rate | .mix => machine.benignCores run.effectiveScenario

theorem Run.programCores_le (run : Run) (machine : Machine) :
    run.programCores machine ≤ machine.coreCount := by
  unfold programCores Machine.benignCores
  cases run.mode <;> simp only <;> omega

namespace Catalog

/-- The solo rate of the program that a run has on a core, if it has one there. In a mix run the
first slots of the mix belong to the aggressors, so a core has the slot after as many others. -/
def soloIpcOn? (c : Catalog) (run : Run) (machine : Machine) (core : Nat) : Option Float :=
  let reserved := machine.reservedCores run.effectiveScenario
  match run.mode with
  | .single => if core = 0 then c.traceIpc? run.workload else none
  | .rate => if core < machine.coreCount - reserved then c.traceIpc? run.workload else none
  | .mix =>
    if core < machine.coreCount - reserved then
      ((c.mix? run.workload).bind fun assigned => assigned[reserved + core]?).bind c.traceIpc?
    else none

variable {c : Catalog} {run : Run} {machine : Machine} {solo : List Float}

theorem lookup_eq_ok_iff {trace : String} {ipc : Float} :
    c.lookup trace = .ok ipc ↔ c.traceIpc? trace = some ipc := by
  unfold lookup
  cases c.traceIpc? trace <;> simp

/-- A list of traces that are all known has the rates of these traces. -/
theorem map_traceIpc?_of_lookupAll {traces : List String} (found : c.lookupAll traces = .ok solo) :
    traces.map c.traceIpc? = solo.map some := by
  induction traces generalizing solo with
  | nil =>
      cases found
      rfl
  | cons trace rest ih =>
      rw [lookupAll] at found
      cases first : c.lookup trace with
      | error cause => simp [first] at found
      | ok ipc =>
          cases later : c.lookupAll rest with
          | error cause => simp [first, later, Except.map] at found
          | ok others =>
              simp only [first, later, Except.map, Except.ok.injEq] at found
              rw [← found, List.map_cons, List.map_cons, lookup_eq_ok_iff.mp first, ih later]

/-- The rates of a run with one program on its cores. -/
theorem eq_replicate_of_map_lookup {trace : String} {cores : Nat}
    (resolved : (c.lookup trace).map (List.replicate cores) = .ok solo) :
    ∃ ipc, c.traceIpc? trace = some ipc ∧ solo = List.replicate cores ipc := by
  cases found : c.lookup trace with
  | error cause => simp [found, Except.map] at resolved
  | ok ipc =>
      simp only [found, Except.map, Except.ok.injEq] at resolved
      exact ⟨ipc, lookup_eq_ok_iff.mp found, resolved.symm⟩

/-- The rates of a mix run are those of the slots of its mix after the reserved ones. -/
theorem exists_mix_of_soloIpcs (mode : run.mode = .mix) (resolved : c.soloIpcs run machine = .ok solo) :
    ∃ assigned, c.mix? run.workload = some assigned ∧ machine.coreCount ≤ assigned.length ∧
      ((assigned.take machine.coreCount).drop
        (machine.reservedCores run.effectiveScenario)).map c.traceIpc? = solo.map some := by
  simp only [soloIpcs, mode] at resolved
  cases assignment : c.mix? run.workload with
  | none => simp [assignment] at resolved
  | some assigned =>
      simp only [assignment] at resolved
      split at resolved
      · cases resolved
      · next long => exact ⟨assigned, rfl, Nat.le_of_not_lt long, map_traceIpc?_of_lookupAll resolved⟩

/-- The solo rates of a run are those of the programs on its cores. -/
theorem getElem?_of_soloIpcs (resolved : c.soloIpcs run machine = .ok solo) {core : Nat}
    (onMachine : core < machine.coreCount) : solo[core]? = c.soloIpcOn? run machine core := by
  cases mode : run.mode with
  | single =>
      simp only [soloIpcs, soloIpcOn?, mode] at resolved ⊢
      obtain ⟨ipc, known, rfl⟩ := eq_replicate_of_map_lookup resolved
      rw [List.getElem?_replicate, known]
      by_cases first : core = 0
      · rw [if_pos (by omega), if_pos first]
      · rw [if_neg (by omega), if_neg first]
  | rate =>
      simp only [soloIpcs, soloIpcOn?, mode] at resolved ⊢
      obtain ⟨ipc, known, rfl⟩ := eq_replicate_of_map_lookup resolved
      rw [List.getElem?_replicate, known]
      rfl
  | mix =>
      obtain ⟨assigned, assignment, long, known⟩ := exists_mix_of_soloIpcs mode resolved
      have rate : solo[core]? = (solo.map some)[core]?.join := by
        rw [List.getElem?_map]
        cases solo[core]? <;> rfl
      rw [rate, ← known, List.getElem?_map, List.getElem?_drop, List.getElem?_take]
      simp only [soloIpcOn?, mode, assignment, Option.bind_some]
      by_cases left : core < machine.coreCount - machine.reservedCores run.effectiveScenario
      · rw [if_pos left, if_pos (by omega)]
        cases assigned[machine.reservedCores run.effectiveScenario + core]? <;> rfl
      · rw [if_neg left, if_neg (by omega)]
        rfl

theorem length_of_soloIpcs (resolved : c.soloIpcs run machine = .ok solo) :
    solo.length = run.programCores machine := by
  cases mode : run.mode with
  | single =>
      simp only [soloIpcs, Run.programCores, mode] at resolved ⊢
      obtain ⟨ipc, -, rfl⟩ := eq_replicate_of_map_lookup resolved
      exact List.length_replicate
  | rate =>
      simp only [soloIpcs, Run.programCores, mode] at resolved ⊢
      obtain ⟨ipc, -, rfl⟩ := eq_replicate_of_map_lookup resolved
      exact List.length_replicate
  | mix =>
      obtain ⟨assigned, -, long, known⟩ := exists_mix_of_soloIpcs mode resolved
      have slots := congrArg List.length known
      simp only [List.length_map, List.length_drop, List.length_take] at slots
      simp only [Run.programCores, mode, Machine.benignCores]
      omega

/-- A run that has solo rates has one on each core with a program of its own. -/
theorem exists_soloIpcOn?_of_soloIpcs (resolved : c.soloIpcs run machine = .ok solo) {core : Nat}
    (programmed : core < run.programCores machine) :
    ∃ ipc, c.soloIpcOn? run machine core = some ipc := by
  have listed : core < solo.length := length_of_soloIpcs resolved ▸ programmed
  rw [← getElem?_of_soloIpcs resolved (Nat.lt_of_lt_of_le programmed (run.programCores_le machine))]
  exact ⟨solo[core], List.getElem?_eq_getElem listed⟩

end Catalog

end SpeedupStudy
