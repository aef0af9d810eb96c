/-
# Usable catalogs

A catalog is usable exactly if every trace in it has a name and a finite positive rate, and every
mix assigns traces that the catalog knows. So putting in rates of named traces keeps a catalog
usable: no trace is lost, and the mixes stay as they are.
-/

import SpeedupStudy.Catalog.Builtin
import SpeedupStudy.Proofs.NameMap

namespace SpeedupStudy

namespace NameMap

universe u

variable {α : Type u}

/-- Where the entries of another map are put in, no name is lost. -/
theorem contains_insertAll (m n : NameMap α) (name : String) :
    (m.insertAll n.entries).contains name = (n.contains name || m.contains name) := by
  rw [contains, get?_insertAll, Option.isSome_or]
  rfl

end NameMap

namespace Catalog

/-- Whether a trace may stand in a catalog with a rate. -/
structure UsableTrace (name : String) (ipc : Float) : Prop where
  named : name ≠ ""
  finite : ipc.isFinite = true
  positive : 0.0 < ipc

theorem traceProblem?_eq_none_iff {name : String} {ipc : Float} :
    traceProblem? (name, ipc) = none ↔ UsableTrace name ipc := by
  rw [traceProblem?]
  by_cases empty : name = ""
  · rw [if_pos empty]
    exact ⟨nofun, fun usable => absurd empty usable.named⟩
  · rw [if_neg empty]
    constructor
    · intro found
      split at found
      · next rate =>
          rw [Bool.and_eq_true, decide_eq_true_iff] at rate
          exact ⟨empty, rate.1, rate.2⟩
      · cases found
    · intro usable
      rw [usable.finite, decide_eq_true usable.positive]
      rfl

theorem mixProblem?_eq_none_iff {traces : NameMap Float} {name : String} {assigned : List String} :
    mixProblem? traces (name, assigned) = none ↔
      assigned ≠ [] ∧ ∀ trace ∈ assigned, traces.contains trace = true := by
  rw [mixProblem?]
  cases assigned with
  | nil => simp
  | cons trace rest => simp

/-- A catalog is usable exactly if each of its traces and mixes is. -/
theorem problem?_eq_none_iff {c : Catalog} :
    c.problem? = none ↔
      (∀ name ipc, c.traceIpc? name = some ipc → UsableTrace name ipc) ∧
      ∀ name assigned, c.mix? name = some assigned →
        assigned ≠ [] ∧ ∀ trace ∈ assigned, c.traces.contains trace = true := by
  rw [problem?, Option.or_eq_none_iff, List.findSome?_eq_none_iff, List.findSome?_eq_none_iff]
  simp only [Prod.forall, traceProblem?_eq_none_iff, mixProblem?_eq_none_iff,
    NameMap.mem_entries_iff]
  rfl

/-- A trace has the rate that is put in for it, or else the one that it had. -/
theorem traceIpc?_withTraceIpcs (c : Catalog) (ipcs : NameMap Float) (name : String) :
    (c.withTraceIpcs ipcs).traceIpc? name = (ipcs.get? name).or (c.traceIpc? name) :=
  NameMap.get?_insertAll c.traces ipcs name

/-- A usable catalog stays usable where rates of usable traces are put in. -/
theorem problem?_withTraceIpcs {c : Catalog} (usable : c.problem? = none) {ipcs : NameMap Float}
    (measured : ∀ name ipc, ipcs.get? name = some ipc → UsableTrace name ipc) :
    (c.withTraceIpcs ipcs).problem? = none := by
  rw [problem?_eq_none_iff] at usable ⊢
  obtain ⟨traces, mixes⟩ := usable
  constructor
  · intro name ipc found
    rw [traceIpc?_withTraceIpcs, Option.or_eq_some_iff] at found
    rcases found with found | ⟨-, found⟩
    · exact measured name ipc found
    · exact traces name ipc found
  · intro name assigned found
    obtain ⟨nonempty, known⟩ := mixes name assigned found
    refine ⟨nonempty, fun trace mem => ?_⟩
    have kept : (c.withTraceIpcs ipcs).traces.contains trace =
        (ipcs.contains trace || c.traces.contains trace) :=
      NameMap.contains_insertAll c.traces ipcs trace
    rw [kept, known trace mem, Bool.or_true]

/-- The built-in catalog is usable. -/
theorem problem?_builtin : builtin.problem? = none := by
  decide +kernel

end Catalog

end SpeedupStudy
