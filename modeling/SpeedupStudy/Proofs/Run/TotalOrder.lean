/-
# Configurations and runs are strictly ordered

Several spellings of one number, the two zeros and words that are no finite number all have a
place of their own in the order of configurations, so only a configuration itself is equal to it.
The order of runs goes through their fields, each of which is ordered in this strict way, and
takes that over. Whatever is sorted by either of them therefore comes out in one way.
-/

import SpeedupStudy.Proofs.Decimal.Order
import SpeedupStudy.Proofs.Run.Order

namespace SpeedupStudy

universe u

/-- A comparison that is equal for nothing but an element itself, turns around with its arguments
and is transitive. -/
structure StrictTotal {α : Type u} (cmp : α → α → Ordering) : Prop where
  eq_iff : ∀ a b, cmp a b = .eq ↔ a = b
  swap : ∀ a b, cmp b a = (cmp a b).swap
  lt_trans : ∀ a b c, cmp a b = .lt → cmp b c = .lt → cmp a c = .lt
  isLE_trans : ∀ a b c, (cmp a b).isLE → (cmp b c).isLE → (cmp a c).isLE

section

variable {α : Type u} {cmp : α → α → Ordering} [Std.TransCmp cmp] [Std.LawfulEqCmp cmp]

theorem strictTotal_of_lawful : StrictTotal cmp where
  eq_iff _ _ := Std.LawfulEqCmp.compare_eq_iff_eq
  swap _ _ := Std.OrientedCmp.eq_swap
  lt_trans _ _ _ := Std.TransCmp.lt_trans
  isLE_trans _ _ _ := Std.TransCmp.isLE_trans

/-- A list is sorted in one way, however it was arranged before. -/
theorem sortBy_eq_of_perm_of_lawful {s s' : List α} (perm : s.Perm s') :
    sortBy cmp s = sortBy cmp s' :=
  sortBy_eq_of_perm perm fun _ _ _ _ => Std.LawfulEqCmp.eq_of_compare

end

instance : Std.LawfulEqCmp Run.compare where
  compare_self := Std.ReflCmp.compare_self
  eq_of_compare := Run.eq_of_compare_eq

variable {a b : String} {x y : Float}

theorem isFinite_of_configNumber? (number : configNumber? a = some x) : x.isFinite = true :=
  (Option.filter_eq_some_iff.mp number).2

/-- A configuration that is a finite number comes before one that is not. -/
theorem compareConfigs_of_none (number : configNumber? a = some x) (other : configNumber? b = none) :
    compareConfigs a b = .lt := by
  simp only [compareConfigs, number, other]

/-- Configurations that are numbers of different value are in numeric order. -/
theorem compareConfigs_of_ne (number : configNumber? a = some x) (number' : configNumber? b = some y)
    (other : (x == y) = false) :
    (compareConfigs a b = .lt ↔ x < y) ∧ (compareConfigs a b = .gt ↔ y < x) := by
  obtain ⟨apart, less, greater⟩ := Binary64.compareFloats_of_ne (isFinite_of_configNumber? number)
    (isFinite_of_configNumber? number') other
  have decided : compareConfigs a b = compareFloats x y := by
    simp only [compareConfigs, number, number']
    rcases apart with below | above
    · rw [less.mpr below]
      rfl
    · rw [greater.mpr above]
      rfl
  rw [decided]
  exact ⟨less, greater⟩

/-- The orders of configurations and of runs are strict and total: nothing but a configuration
itself, or a run with the same five fields, is equal to it, they turn around with their arguments
and are transitive. Configurations that are finite numbers come before all others, in numeric
order where their values differ. A list of configurations or of runs is therefore sorted in one
way, however it was arranged. -/
theorem strictTotal_compareConfigs_compare :
    StrictTotal compareConfigs ∧ StrictTotal Run.compare ∧
    (∀ a b x, configNumber? a = some x → configNumber? b = none → compareConfigs a b = .lt) ∧
    (∀ a b x y, configNumber? a = some x → configNumber? b = some y → (x == y) = false →
      (compareConfigs a b = .lt ↔ x < y) ∧ (compareConfigs a b = .gt ↔ y < x)) ∧
    (∀ s s' : List String, s.Perm s' → sortBy compareConfigs s = sortBy compareConfigs s') ∧
    ∀ s s' : List Run, s.Perm s' → sortBy Run.compare s = sortBy Run.compare s' := by
  refine ⟨strictTotal_of_lawful, strictTotal_of_lawful, ?_, ?_, ?_, ?_⟩
  · exact fun a b x number other => compareConfigs_of_none number other
  · exact fun a b x y number number' other => compareConfigs_of_ne number number' other
  · exact fun s s' perm => sortBy_eq_of_perm_of_lawful perm
  · exact fun s s' perm => sortBy_eq_of_perm_of_lawful perm

/-- Thresholds are sorted by value, two spellings of one of them as text, and words come last. -/
theorem strictTotal_compareConfigs_compare_thresholds :
    compareConfigs "64" "512" = .lt ∧ compareConfigs "512" "none" = .lt ∧
      compareConfigs "512" "5.12e2" = .gt ∧
      sortBy compareConfigs ["none", "512", "64", "5.12e2"] =
        sortBy compareConfigs ["64", "5.12e2", "512", "none"] := by
  obtain ⟨configs, -, first, numeric, sorted, -⟩ := strictTotal_compareConfigs_compare
  have small : configNumber? "64" = some 64.0 := by decide +kernel
  have large : configNumber? "512" = some 512.0 := by decide +kernel
  have word : configNumber? "none" = none := by decide +kernel
  refine ⟨?_, first _ _ _ large word, ?_, sorted _ _ (by decide)⟩
  · exact (numeric _ _ _ _ small large (by decide +kernel)).1.mpr (by decide +kernel)
  · have reversed : compareConfigs "5.12e2" "512" = .lt := by decide +kernel
    rw [configs.swap "5.12e2" "512", reversed]
    rfl

end SpeedupStudy
