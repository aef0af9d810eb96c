/-
# Which runs have solo rates

A run of one program has solo rates exactly if its trace is known. A mix run needs a mix that is
long enough for the machine and whose slots after the reserved ones hold known traces, and of
several failures the first one in this order is told. The reserved slots and those past the cores
of the machine are never looked at, so a run among aggressors has the rates of the benign run
without those of the first cores.
-/

import SpeedupStudy.Proofs.Catalog.Usable
import SpeedupStudy.Proofs.Collection.InRange

namespace SpeedupStudy

namespace Run

/-- The same run on a machine that shares its cores with aggressors. -/
def amongAggressors (run : Run) : Run :=
  { run with scenario := some .malicious }

@[simp]
theorem mode_amongAggressors (run : Run) : run.amongAggressors.mode = run.mode := rfl

@[simp]
theorem workload_amongAggressors (run : Run) : run.amongAggressors.workload = run.workload := rfl

@[simp]
theorem effectiveScenario_amongAggressors (run : Run) :
    run.amongAggressors.effectiveScenario = .malicious := rfl

end Run

namespace Catalog

/-- Why a run has no solo rates. A mix is looked up first, then measured, and then the traces of its
slots are looked up one by one. -/
inductive Unresolved (c : Catalog) (run : Run) (machine : Machine) : ResolveError → Prop where
  | alone (mode : run.mode ≠ .mix) (unknown : c.traceIpc? run.workload = none) :
      Unresolved c run machine (.unknownTrace run.workload)
  | unknownMix (mode : run.mode = .mix) (absent : c.mix? run.workload = none) :
      Unresolved c run machine (.unknownMix run.workload)
  | mixTooShort {assigned : List String} (mode : run.mode = .mix)
      (found : c.mix? run.workload = some assigned) (short : assigned.length < machine.coreCount) :
      Unresolved c run machine (.mixTooShort run.workload machine.coreCount assigned.length)
  | slot {assigned : List String} {slot : Nat} {trace : String} (mode : run.mode = .mix)
      (found : c.mix? run.workload = some assigned) (long : machine.coreCount ≤ assigned.length)
      (reserved : machine.reservedCores run.effectiveScenario ≤ slot)
      (used : slot < machine.coreCount) (here : assigned[slot]? = some trace)
      (unknown : c.traceIpc? trace = none)
      (earlier : ∀ slot', machine.reservedCores run.effectiveScenario ≤ slot' → slot' < slot →
        ∃ trace' ipc, assigned[slot']? = some trace' ∧ c.traceIpc? trace' = some ipc) :
      Unresolved c run machine (.unknownTrace trace)

variable {c : Catalog} {run : Run} {machine : Machine} {solo : List Float}

theorem lookup_eq_error_iff {trace : String} {cause : ResolveError} :
    c.lookup trace = .error cause ↔ c.traceIpc? trace = none ∧ .unknownTrace trace = cause := by
  unfold lookup
  cases c.traceIpc? trace <;> simp

/-- A list of traces fails at the first one that is unknown. -/
theorem lookupAll_eq_error_iff {traces : List String} {cause : ResolveError} :
    c.lookupAll traces = .error cause ↔ ∃ (place : Nat) (trace : String), traces[place]? = some trace ∧
      c.traceIpc? trace = none ∧ cause = .unknownTrace trace ∧
        ∀ place' < place, ∃ trace' ipc, traces[place']? = some trace' ∧
          c.traceIpc? trace' = some ipc := by
  induction traces with
  | nil => simp [lookupAll]
  | cons first rest ih =>
      cases known : c.traceIpc? first with
      | none =>
          have failed : c.lookup first = .error (.unknownTrace first) :=
            lookup_eq_error_iff.mpr ⟨known, rfl⟩
          rw [lookupAll, failed]
          constructor
          · rintro ⟨⟩
            exact ⟨0, first, rfl, known, rfl, by simp⟩
          · rintro ⟨place, trace, here, unknown, rfl, earlier⟩
            cases place with
            | zero =>
                cases here
                rfl
            | succ place =>
                obtain ⟨trace', ipc, front, rate⟩ := earlier 0 (Nat.succ_pos place)
                cases front
                rw [known] at rate
                cases rate
      | some ipc =>
          have passed : c.lookup first = .ok ipc := lookup_eq_ok_iff.mpr known
          have later : c.lookupAll (first :: rest) = .error cause ↔
              c.lookupAll rest = .error cause := by
            rw [lookupAll, passed]
            cases c.lookupAll rest <;> simp [Except.map]
          rw [later, ih]
          constructor
          · rintro ⟨place, trace, here, unknown, same, earlier⟩
            refine ⟨place + 1, trace, here, unknown, same, fun place' before => ?_⟩
            cases place' with
            | zero => exact ⟨first, ipc, rfl, known⟩
            | succ place' => exact earlier place' (by omega)
          · rintro ⟨place, trace, here, unknown, same, earlier⟩
            cases place with
            | zero =>
                cases here
                rw [known] at unknown
                cases unknown
            | succ place =>
                exact ⟨place, trace, here, unknown, same,
                  fun place' before => earlier (place' + 1) (by omega)⟩

/-- Running one program on some cores fails exactly if its trace is unknown. -/
theorem map_lookup_eq_error_iff {trace : String} {cores : Nat} {cause : ResolveError} :
    (c.lookup trace).map (List.replicate cores) = .error cause ↔
      c.traceIpc? trace = none ∧ .unknownTrace trace = cause := by
  rw [← lookup_eq_error_iff]
  cases c.lookup trace <;> simp [Except.map]

theorem soloIpcs_of_mix (mode : run.mode = .mix) :
    c.soloIpcs run machine =
      match c.mix? run.workload with
      | none => .error (.unknownMix run.workload)
      | some assigned =>
        if assigned.length < machine.coreCount then
          .error (.mixTooShort run.workload machine.coreCount assigned.length)
        else
          c.lookupAll ((assigned.take machine.coreCount).drop
            (machine.reservedCores run.effectiveScenario)) := by
  cases found : c.mix? run.workload with
  | none => simp only [soloIpcs, mode, found]
  | some assigned => simp only [soloIpcs, mode, found]

/-- The slots of a mix that a run looks at fail at the first one whose trace is unknown. -/
theorem lookupAll_slots_eq_error_iff {assigned : List String} {cause : ResolveError}
    (mode : run.mode = .mix) (found : c.mix? run.workload = some assigned)
    (long : machine.coreCount ≤ assigned.length) :
    c.lookupAll ((assigned.take machine.coreCount).drop
        (machine.reservedCores run.effectiveScenario)) = .error cause ↔
      c.Unresolved run machine cause := by
  rw [lookupAll_eq_error_iff]
  simp only [List.getElem?_drop, List.getElem?_take]
  constructor
  · rintro ⟨place, trace, here, unknown, rfl, earlier⟩
    split at here
    · next used =>
        refine .slot mode found long (Nat.le_add_right _ _) used here unknown ?_
        intro slot after before
        obtain ⟨trace', ipc, there, known⟩ :=
          earlier (slot - machine.reservedCores run.effectiveScenario) (by omega)
        rw [Nat.add_sub_cancel' after, if_pos (by omega)] at there
        exact ⟨trace', ipc, there, known⟩
    · cases here
  · intro unresolved
    cases unresolved with
    | alone other => exact absurd mode other
    | unknownMix mode absent => simp [found] at absent
    | mixTooShort mode found' short =>
        rw [found, Option.some.injEq] at found'
        subst found'
        omega
    | @slot assigned' slot trace mode found' long' reserved used here unknown earlier =>
        rw [found, Option.some.injEq] at found'
        subst found'
        refine ⟨slot - machine.reservedCores run.effectiveScenario, trace, ?_, unknown, rfl, ?_⟩
        · rw [Nat.add_sub_cancel' reserved, if_pos used, here]
        · intro place before
          obtain ⟨trace', ipc, there, known⟩ := earlier
            (machine.reservedCores run.effectiveScenario + place) (Nat.le_add_right _ _) (by omega)
          exact ⟨trace', ipc, by rw [if_pos (by omega), there], known⟩

/-- A run fails to resolve exactly for the reasons above. -/
theorem soloIpcs_eq_error_iff {cause : ResolveError} :
    c.soloIpcs run machine = .error cause ↔ c.Unresolved run machine cause := by
  have alone (mode : run.mode ≠ .mix) :
      c.traceIpc? run.workload = none ∧ .unknownTrace run.workload = cause ↔
        c.Unresolved run machine cause := by
    constructor
    · rintro ⟨unknown, rfl⟩
      exact .alone mode unknown
    · intro unresolved
      cases unresolved with
      | alone mode unknown => exact ⟨unknown, rfl⟩
      | unknownMix mix => exact absurd mix mode
      | mixTooShort mix => exact absurd mix mode
      | slot mix => exact absurd mix mode
  cases mode : run.mode with
  | single =>
      rw [← alone (by simp [mode])]
      simp only [soloIpcs, mode, map_lookup_eq_error_iff]
  | rate =>
      rw [← alone (by simp [mode])]
      simp only [soloIpcs, mode, map_lookup_eq_error_iff]
  | mix =>
      rw [soloIpcs_of_mix mode]
      cases found : c.mix? run.workload with
      | none =>
          constructor
          · rintro ⟨⟩
            exact .unknownMix mode found
          · intro unresolved
            cases unresolved with
            | alone other => exact absurd mode other
            | unknownMix => rfl
            | mixTooShort mode found' => simp [found] at found'
            | slot mode found' => simp [found] at found'
      | some assigned =>
          by_cases short : assigned.length < machine.coreCount
          · simp only [if_pos short]
            constructor
            · rintro ⟨⟩
              exact .mixTooShort mode found short
            · intro unresolved
              cases unresolved with
              | alone other => exact absurd mode other
              | unknownMix mode absent => simp [found] at absent
              | mixTooShort mode found' => simp_all
              | slot mode found' long => simp_all; omega
          · simp only [if_neg short]
            exact lookupAll_slots_eq_error_iff mode found (Nat.le_of_not_lt short)

/-- Putting in a mix changes no trace. -/
theorem traceIpc?_withMix (c : Catalog) (name : String) (assigned : List String) (trace : String) :
    (c.withMix name assigned).traceIpc? trace = c.traceIpc? trace :=
  rfl

theorem mix?_withMix_self (c : Catalog) (name : String) (assigned : List String) :
    (c.withMix name assigned).mix? name = some assigned := by
  rw [mix?, withMix, NameMap.get?_insert, if_pos rfl]

theorem lookupAll_withMix (c : Catalog) (name : String) (assigned traces : List String) :
    (c.withMix name assigned).lookupAll traces = c.lookupAll traces := by
  induction traces with
  | nil => rfl
  | cons trace rest ih =>
      have same : (c.withMix name assigned).lookup trace = c.lookup trace := rfl
      rw [lookupAll, lookupAll, same, ih]

/-- Only the slots of a mix after the reserved ones and before the end of the machine matter. -/
theorem soloIpcs_withMix {assigned assigned' : List String}
    (found : c.mix? run.workload = some assigned) (long : machine.coreCount ≤ assigned.length)
    (long' : machine.coreCount ≤ assigned'.length)
    (same : ∀ slot, machine.reservedCores run.effectiveScenario ≤ slot → slot < machine.coreCount →
      assigned'[slot]? = assigned[slot]?) :
    (c.withMix run.workload assigned').soloIpcs run machine = c.soloIpcs run machine := by
  have slots : (assigned'.take machine.coreCount).drop
        (machine.reservedCores run.effectiveScenario) =
      (assigned.take machine.coreCount).drop (machine.reservedCores run.effectiveScenario) := by
    apply List.ext_getElem?
    intro place
    rw [List.getElem?_drop, List.getElem?_drop, List.getElem?_take, List.getElem?_take]
    by_cases used : machine.reservedCores run.effectiveScenario + place < machine.coreCount
    · rw [if_pos used, if_pos used, same _ (Nat.le_add_right _ _) used]
    · rw [if_neg used, if_neg used]
  cases mode : run.mode with
  | single => simp only [soloIpcs, mode, lookup, traceIpc?_withMix]
  | rate => simp only [soloIpcs, mode, lookup, traceIpc?_withMix]
  | mix =>
      rw [soloIpcs_of_mix mode, soloIpcs_of_mix mode, mix?_withMix_self, found]
      simp only [if_neg (Nat.not_lt.mpr long), if_neg (Nat.not_lt.mpr long'), lookupAll_withMix,
        slots]

/-- Dropping traces drops their rates. -/
theorem lookupAll_drop {traces : List String} (count : Nat) (known : c.lookupAll traces = .ok solo) :
    c.lookupAll (traces.drop count) = .ok (solo.drop count) := by
  induction traces generalizing solo count with
  | nil =>
      cases known
      simp [lookupAll]
  | cons trace rest ih =>
      cases count with
      | zero => exact known
      | succ count =>
          rw [lookupAll] at known
          cases first : c.lookup trace with
          | error cause => simp [first] at known
          | ok ipc =>
              cases later : c.lookupAll rest with
              | error cause => simp [first, later, Except.map] at known
              | ok others =>
                  simp only [first, later, Except.map, Except.ok.injEq] at known
                  rw [← known, List.drop_succ_cons, List.drop_succ_cons, ih count later]

/-- Among aggressors a run has the rates that it has without them but for those of the first
cores. -/
theorem soloIpcs_amongAggressors (mode : run.mode ≠ .single)
    (scenario : run.effectiveScenario = .benign) (resolved : c.soloIpcs run machine = .ok solo) :
    c.soloIpcs run.amongAggressors machine =
      .ok (solo.drop (machine.reservedCores .malicious)) := by
  have unreserved : machine.reservedCores run.effectiveScenario = 0 := by rw [scenario]; rfl
  cases kind : run.mode with
  | single => exact absurd kind mode
  | rate =>
      simp only [soloIpcs, kind, Machine.benignCores, unreserved] at resolved
      obtain ⟨ipc, known, rfl⟩ := eq_replicate_of_map_lookup resolved
      have found : c.lookup run.workload = .ok ipc := lookup_eq_ok_iff.mpr known
      simp only [soloIpcs, Run.mode_amongAggressors, kind, Run.workload_amongAggressors, found,
        Except.map, Machine.benignCores, Run.effectiveScenario_amongAggressors,
        List.drop_replicate, Nat.sub_zero]
  | mix =>
      rw [soloIpcs_of_mix kind] at resolved
      rw [soloIpcs_of_mix (run.mode_amongAggressors.trans kind), Run.workload_amongAggressors,
        Run.effectiveScenario_amongAggressors]
      cases found : c.mix? run.workload with
      | none => simp [found] at resolved
      | some assigned =>
          simp only [found, unreserved, List.drop_zero] at resolved ⊢
          by_cases short : assigned.length < machine.coreCount
          · simp [short] at resolved
          · rw [if_neg short] at resolved ⊢
            exact lookupAll_drop _ resolved

/-- In a usable catalog the traces of a mix are known. -/
theorem ne_unknownTrace_of_mix (usable : c.problem? = none) (mode : run.mode = .mix)
    (trace : String) : c.soloIpcs run machine ≠ .error (.unknownTrace trace) := by
  intro failed
  obtain ⟨-, mixes⟩ := problem?_eq_none_iff.mp usable
  cases soloIpcs_eq_error_iff.mp failed with
  | alone other => exact other mode
  | @slot assigned slot _ mode found long reserved used here unknown earlier =>
      have listed := (mixes _ _ found).2 trace (List.mem_of_getElem? here)
      have known : (c.traceIpc? trace).isSome = true := listed
      rw [unknown] at known
      cases known

/-- Every rate of a run is that of a trace of the catalog. -/
theorem exists_trace_of_mem_soloIpcs (resolved : c.soloIpcs run machine = .ok solo) {ipc : Float}
    (mem : ipc ∈ solo) : ∃ trace, c.traceIpc? trace = some ipc := by
  obtain ⟨core, inside, rfl⟩ := List.getElem_of_mem mem
  have onMachine : core < machine.coreCount :=
    Nat.lt_of_lt_of_le (length_of_soloIpcs resolved ▸ inside) (run.programCores_le machine)
  have here := getElem?_of_soloIpcs resolved onMachine
  rw [List.getElem?_eq_getElem inside] at here
  unfold soloIpcOn? at here
  cases mode : run.mode with
  | single =>
      simp only [mode] at here
      split at here
      · exact ⟨_, here.symm⟩
      · cases here
  | rate =>
      simp only [mode] at here
      split at here
      · exact ⟨_, here.symm⟩
      · cases here
  | mix =>
      simp only [mode] at here
      split at here
      · obtain ⟨trace, -, known⟩ := Option.bind_eq_some_iff.mp here.symm
        exact ⟨trace, known⟩
      · cases here

/-- In a usable catalog the rates of a run are finite and positive. -/
theorem trusted_of_mem_soloIpcs (usable : c.problem? = none)
    (resolved : c.soloIpcs run machine = .ok solo) {ipc : Float} (mem : ipc ∈ solo) :
    ipc.isFinite = true ∧ 0.0 < ipc := by
  obtain ⟨trace, known⟩ := exists_trace_of_mem_soloIpcs resolved mem
  have trusted := (problem?_eq_none_iff.mp usable).1 trace ipc known
  exact ⟨trusted.finite, trusted.positive⟩

/-- How the solo rates of a run are decided, for every catalog and every machine. No position that
is looked up is out of range. A run fails for the first reason that applies and for no other. A
run that does not fail has a rate for each core with a program of its own, whatever stands in the
other slots of its mix, and among aggressors it loses those of the first cores. In a usable
catalog the traces of mixes are known and all rates are finite and positive. -/
theorem soloIpcs_decided (c : Catalog) (run : Run) (machine : Machine) :
    c.soloIpcsAt? run machine = some (c.soloIpcs run machine) ∧
    (∀ cause, c.soloIpcs run machine = .error cause ↔ c.Unresolved run machine cause) ∧
    (∀ solo, c.soloIpcs run machine = .ok solo →
      solo.length = (if run.mode = .single then min 1 machine.coreCount
        else machine.coreCount - machine.reservedCores run.effectiveScenario) ∧
      ∀ core < machine.coreCount, solo[core]? = c.soloIpcOn? run machine core) ∧
    (∀ assigned assigned', c.mix? run.workload = some assigned →
      machine.coreCount ≤ assigned.length → machine.coreCount ≤ assigned'.length →
      (∀ slot, machine.reservedCores run.effectiveScenario ≤ slot → slot < machine.coreCount →
        assigned'[slot]? = assigned[slot]?) →
      (c.withMix run.workload assigned').soloIpcs run machine = c.soloIpcs run machine) ∧
    (run.mode ≠ .single → run.effectiveScenario = .benign →
      ∀ solo, c.soloIpcs run machine = .ok solo →
        c.soloIpcs run.amongAggressors machine =
          .ok (solo.drop (min machine.aggressorCores machine.coreCount))) ∧
    (c.problem? = none →
      (run.mode = .mix → ∀ trace, c.soloIpcs run machine ≠ .error (.unknownTrace trace)) ∧
      ∀ solo, c.soloIpcs run machine = .ok solo →
        ∀ ipc ∈ solo, ipc.isFinite = true ∧ 0.0 < ipc) := by
  refine ⟨c.soloIpcsAt?_eq run machine, fun cause => soloIpcs_eq_error_iff, ?_, ?_, ?_, ?_⟩
  · intro solo resolved
    refine ⟨?_, fun core onMachine => getElem?_of_soloIpcs resolved onMachine⟩
    rw [length_of_soloIpcs resolved, Run.programCores]
    cases run.mode with
    | single => exact Nat.min_comm _ _
    | rate => rfl
    | mix => rfl
  · exact fun assigned assigned' found long long' same => soloIpcs_withMix found long long' same
  · exact fun mode scenario solo resolved => soloIpcs_amongAggressors mode scenario resolved
  · intro usable
    exact ⟨fun mode => ne_unknownTrace_of_mix usable mode,
      fun solo resolved ipc mem => trusted_of_mem_soloIpcs usable resolved mem⟩

/-- A mix on four cores, of which one is the aggressor's in a malicious run. Whatever is put in
its slot then leaves the rates of the other cores as they are, and a benign run tells that it is
unknown. -/
theorem soloIpcs_decided_mix :
    let c := (((empty.withTrace "a" 1.0).withTrace "b" 2.0).withTrace "c" 4.0).withMix "m"
      ["a", "b", "c", "a"]
    let run : Run := ⟨some .benign, "hydra", "1024", .mix, "mix.m"⟩
    let machine : Machine := ⟨4, 1⟩
    let other := c.withMix run.workload ["d", "b", "c", "a"]
    c.problem? = none ∧ c.soloIpcs run machine = .ok [1.0, 2.0, 4.0, 1.0] ∧
      (∀ ipc ∈ [1.0, 2.0, 4.0, 1.0], ipc.isFinite = true ∧ 0.0 < ipc) ∧
      c.soloIpcs run.amongAggressors machine = .ok [2.0, 4.0, 1.0] ∧
      other.soloIpcs run.amongAggressors machine = .ok [2.0, 4.0, 1.0] ∧
      other.soloIpcs run machine = .error (.unknownTrace "d") := by
  intro c run machine other
  have usable : c.problem? = none := by decide +kernel
  have resolved : c.soloIpcs run machine = .ok [1.0, 2.0, 4.0, 1.0] := by decide +kernel
  have assigned : c.mix? run.workload = some ["a", "b", "c", "a"] := by decide +kernel
  obtain ⟨-, -, -, -, malicious, trusted⟩ := soloIpcs_decided c run machine
  obtain ⟨-, -, -, slots, -⟩ := soloIpcs_decided c run.amongAggressors machine
  obtain ⟨-, fails, -⟩ := soloIpcs_decided other run machine
  have dropped : c.soloIpcs run.amongAggressors machine = .ok [2.0, 4.0, 1.0] :=
    malicious (by decide) rfl _ resolved
  have kept : other.soloIpcs run.amongAggressors machine =
      c.soloIpcs run.amongAggressors machine := by
    refine slots ["a", "b", "c", "a"] ["d", "b", "c", "a"] assigned (by decide) (by decide) ?_
    intro slot reserved used
    cases slot with
    | zero => exact absurd reserved (by decide)
    | succ slot => rfl
  refine ⟨usable, resolved, (trusted usable).2 _ resolved, dropped, kept.trans dropped, ?_⟩
  have found : other.mix? run.workload = some ["d", "b", "c", "a"] := mix?_withMix_self _ _ _
  have unknown : other.traceIpc? "d" = none := by decide +kernel
  have first : machine.reservedCores run.effectiveScenario ≤ 0 := Nat.le_refl 0
  refine (fails _).mpr (.slot rfl found (by decide) first (by decide) rfl unknown ?_)
  exact fun slot _ before => absurd before (Nat.not_lt_zero slot)

end Catalog

end SpeedupStudy
