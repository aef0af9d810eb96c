/-
# The order of runs is a total preorder

Sorting by a comparison needs one that is transitive and that turns around with its arguments. All
comparisons of runs are of this kind. Two configurations are equal in their order only if they are
the same text, even where they spell one number, so two runs compare equal up to their scenarios
exactly if they have one key: the method, the mode, the configuration and the run base.
-/

import SpeedupStudy.Proofs.Sort
import SpeedupStudy.Run.Order

namespace SpeedupStudy

theorem Mode.name_injective {a b : Mode} (same : a.name = b.name) : a = b := by
  have named : Mode.ofName? a.name = some b := by rw [same, Mode.ofName?_name]
  rw [Mode.ofName?_name] at named
  exact Option.some.inj named

theorem compareConfigs_swap (a b : String) : compareConfigs a b = (compareConfigs b a).swap := by
  cases first : configNumber? a <;> cases second : configNumber? b <;>
    simp only [compareConfigs, first, second]
  · exact Std.OrientedOrd.eq_swap
  · rfl
  · rfl
  · rw [Ordering.swap_then]
    congr 1 <;> exact Std.OrientedOrd.eq_swap

instance : Std.OrientedCmp compareConfigs where
  eq_swap := compareConfigs_swap _ _

instance : Std.TransCmp compareConfigs where
  isLE_trans {a b c} below above := by
    cases first : configNumber? a <;> cases second : configNumber? b <;>
      cases third : configNumber? c <;> simp only [compareConfigs, first, second, third] at *
    · exact Std.TransOrd.isLE_trans below above
    · exact absurd above (by decide)
    · exact absurd below (by decide)
    · exact absurd below (by decide)
    · rfl
    · exact absurd above (by decide)
    · rfl
    · -- Three numbers are compared by their places and then as text.
      next x y z =>
        have pairs : Std.TransCmp (compareLex (compareOn fun p : Float × String => orderKey p.1)
            (compareOn Prod.snd)) := inferInstance
        exact pairs.isLE_trans (a := (x, a)) (b := (y, b)) (c := (z, c)) below above

instance : Std.LawfulEqCmp compareConfigs where
  compare_self := Std.ReflCmp.compare_self
  eq_of_compare {a b} same := by
    cases first : configNumber? a <;> cases second : configNumber? b <;>
      simp only [compareConfigs, first, second, reduceCtorEq, Ordering.then_eq_eq] at same
    · exact Std.LawfulEqOrd.eq_of_compare same
    · exact Std.LawfulEqOrd.eq_of_compare same.2

theorem compareScenarios_swap (a b : Option Scenario) :
    compareScenarios a b = (compareScenarios b a).swap := by
  cases a <;> cases b
  · rfl
  · rfl
  · rfl
  · exact Std.OrientedOrd.eq_swap

instance : Std.OrientedCmp compareScenarios where
  eq_swap := compareScenarios_swap _ _

instance : Std.TransCmp compareScenarios where
  isLE_trans {a b c} below above := by
    cases a with
    | none => cases c <;> rfl
    | some first =>
        cases b with
        | none => cases below
        | some second =>
            cases c with
            | none => cases above
            | some third => exact Std.TransOrd.isLE_trans below above

instance : Std.LawfulEqCmp compareScenarios where
  compare_self := Std.ReflCmp.compare_self
  eq_of_compare {a b} same := by
    cases a with
    | none =>
        cases b with
        | none => rfl
        | some t' => cases same
    | some t =>
        cases b with
        | none => cases same
        | some t' =>
            have name : t.name = t'.name := Std.LawfulEqOrd.eq_of_compare same
            have named : Scenario.ofName? t.name = some t' := by rw [name, Scenario.ofName?_name]
            rw [← named, Scenario.ofName?_name]

namespace Run

/-- What a run executes, whichever scenario its name tells. -/
structure Key where
  method : String
  mode : Mode
  config : String
  runBase : String
deriving DecidableEq, Repr

/-- The key of a run. -/
def key (run : Run) : Key :=
  ⟨run.method, run.mode, run.config, run.runBase⟩

@[simp]
theorem sameKey_iff {a b : Run} : a.sameKey b = true ↔ a.key = b.key := by
  simp only [sameKey, key, Key.mk.injEq, Bool.and_eq_true, beq_iff_eq, and_assoc]

/-- The order of keys is lexicographic. -/
theorem compareKey_eq_compareLex :
    compareKey = compareLex (compareOn method) (compareLex (compareOn fun run => run.mode.name)
      (compareLex (fun a b => compareConfigs a.config b.config) (compareOn runBase))) := by
  funext a b
  rfl

instance : Std.TransCmp fun a b : Run => compareConfigs a.config b.config :=
  transCmp_comap config

instance : Std.TransCmp compareKey := by
  rw [compareKey_eq_compareLex]
  infer_instance

instance : Std.TransCmp fun a b : Run => compareScenarios a.scenario b.scenario :=
  transCmp_comap scenario

theorem compare_eq_compareLex :
    Run.compare = compareLex compareKey fun a b => compareScenarios a.scenario b.scenario := by
  funext a b
  rfl

instance : Std.TransCmp Run.compare := by
  rw [compare_eq_compareLex]
  infer_instance

/-- The order does not tell two runs apart, up to their scenarios, exactly if they have one key. -/
theorem compareKey_eq_eq_iff {a b : Run} : compareKey a b = .eq ↔ a.key = b.key := by
  simp only [compareKey, key, Key.mk.injEq, Ordering.then_eq_eq,
    Std.LawfulEqCmp.compare_eq_iff_eq]
  constructor
  · rintro ⟨method, mode, config, runBase⟩
    exact ⟨method, Mode.name_injective mode, config, runBase⟩
  · rintro ⟨method, mode, config, runBase⟩
    exact ⟨method, congrArg Mode.name mode, config, runBase⟩

/-- The order of runs refines the order of their keys. -/
theorem isLE_compareKey {a b : Run} (below : (Run.compare a b).isLE) :
    (compareKey a b).isLE := by
  rw [Run.compare, Ordering.isLE_then_iff_and] at below
  exact below.1

/-- Among runs of one key the scenario decides. -/
theorem compare_of_key_eq {a b : Run} (same : a.key = b.key) :
    Run.compare a b = compareScenarios a.scenario b.scenario := by
  rw [Run.compare, compareKey_eq_eq_iff.mpr same, Ordering.eq_then]

/-- The order of runs tells different runs apart. -/
theorem eq_of_compare_eq {a b : Run} (same : Run.compare a b = .eq) : a = b := by
  obtain ⟨sameKey, sameScenario⟩ := Ordering.then_eq_eq.mp same
  have key : a.key = b.key := compareKey_eq_eq_iff.mp sameKey
  have scenario : a.scenario = b.scenario := Std.LawfulEqCmp.eq_of_compare sameScenario
  simp only [Run.key, Key.mk.injEq] at key
  obtain ⟨method, mode, config, runBase⟩ := key
  cases a
  cases b
  simp_all only

end Run

end SpeedupStudy
