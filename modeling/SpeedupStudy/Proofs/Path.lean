/-
# Paths of entries

The path of an entry of a directory has the components of the path of the directory and one more,
the name of the entry, whether or not a slash ends the path of the directory. So entries with
different names, or below entries with different names, have paths that the order of paths tells
apart, however the path they start from is written.
-/

import SpeedupStudy.Path
import SpeedupStudy.Proofs.Sort
import SpeedupStudy.Proofs.Text.Pieces

namespace SpeedupStudy

namespace Path

instance : Std.TransCmp Path.compare :=
  transCmp_comap fun path : Path => path.components.map Component.rank

/-- Paths that the order of paths does not tell apart have the same components. -/
theorem compare_eq_eq_iff {a b : Path} : a.compare b = .eq ↔ a.components = b.components := by
  rw [compare, Std.LawfulEqOrd.compare_eq_iff_eq]
  exact (List.map_injective_iff.mpr fun _ _ => Component.rank_injective).eq_iff

/-- What a directory can call an entry. -/
structure IsEntryName (name : Bytes) : Prop where
  nonempty : name ≠ []
  unsplit : slash ∉ name
  noDot : name ≠ [dot]
  noDots : name ≠ [dot, dot]

instance (name : Bytes) : Decidable (IsEntryName name) :=
  decidable_of_iff (name ≠ [] ∧ slash ∉ name ∧ name ≠ [dot] ∧ name ≠ [dot, dot])
    ⟨fun ⟨nonempty, unsplit, noDot, noDots⟩ => ⟨nonempty, unsplit, noDot, noDots⟩,
      fun ⟨nonempty, unsplit, noDot, noDots⟩ => ⟨nonempty, unsplit, noDot, noDots⟩⟩

theorem componentOf?_eq_some {name : Bytes} (proper : IsEntryName name) :
    componentOf? name = some (.name name) := by
  simp [componentOf?, proper.nonempty, proper.noDot, proper.noDots]

section Pieces

variable {p : Path} {first : Bytes} {rest : List Bytes}

/-- A path whose only piece between slashes is empty is empty. -/
theorem not_both_empty (split : Text.split slash p.bytes = first :: rest)
    (nonempty : p.bytes ≠ []) :
    ¬ (first.isEmpty = true ∧ rest.isEmpty = true) := by
  rintro ⟨noFirst, noRest⟩
  rw [List.isEmpty_iff.mp noFirst, List.isEmpty_iff.mp noRest] at split
  have joined := Text.join_split slash p.bytes
  rw [split, Text.join_singleton] at joined
  exact nonempty joined.symm

/-- The components of a path that is not empty, by its pieces between slashes. -/
theorem components_of_split (split : Text.split slash p.bytes = first :: rest)
    (nonempty : p.bytes ≠ []) :
    p.components = (if first.isEmpty then [.root] else if first == [dot] then [.here]
      else [first].filterMap componentOf?) ++ rest.filterMap componentOf? := by
  have several := not_both_empty split nonempty
  rw [components, split]
  simp only
  split_ifs with empty single
  · exact absurd ⟨empty, single⟩ several
  all_goals rfl

/-- The path of an entry has the pieces of the path of the directory, apart from the empty one after
a slash at its end, and the name of the entry. -/
theorem split_join (p : Path) {name : Bytes} (proper : IsEntryName name) :
    (p.bytes = [] ∧ Text.split slash (p.join name).bytes = [name]) ∨
      p.bytes ≠ [] ∧ ∃ first rest ending, (∀ piece ∈ ending, piece = []) ∧
        Text.split slash p.bytes = first :: (rest ++ ending) ∧
        Text.split slash (p.join name).bytes = first :: (rest ++ [name]) := by
  have whole : ∀ bytes : Bytes, ∃ first rest, Text.split slash bytes = first :: rest := fun bytes =>
    List.exists_cons_of_ne_nil (Text.splitWhen_ne_nil (· == slash) bytes)
  cases last : p.bytes.getLast? with
  | none =>
      refine .inl ⟨List.getLast?_eq_none_iff.mp last, ?_⟩
      rw [join, last]
      exact Text.split_eq_singleton proper.unsplit
  | some b =>
      obtain ⟨base, bytes⟩ := List.getLast?_eq_some_iff.mp last
      refine .inr ⟨by simp [bytes], ?_⟩
      by_cases slashed : b = slash
      · subst slashed
        obtain ⟨first, rest, pieces⟩ := whole base
        have joined : (p.join name).bytes = base ++ slash :: name := by
          simp [join, bytes]
        refine ⟨first, rest, [[]], by simp, ?_, ?_⟩
        · rw [bytes, Text.split_append_cons base List.not_mem_nil, pieces, List.cons_append]
        · rw [joined, Text.split_append_cons base proper.unsplit, pieces, List.cons_append]
      · obtain ⟨first, rest, pieces⟩ := whole p.bytes
        have joined : (p.join name).bytes = p.bytes ++ slash :: name := by
          simp [join, last, slashed]
        refine ⟨first, rest, [], nofun, by rw [pieces, List.append_nil], ?_⟩
        rw [joined, Text.split_append_cons p.bytes proper.unsplit, pieces, List.cons_append]

theorem join_bytes_ne_nil (p : Path) {name : Bytes} (proper : IsEntryName name) :
    (p.join name).bytes ≠ [] := by
  rw [join]
  split
  · exact proper.nonempty
  · split <;> simp [proper.nonempty]

/-- An entry of a directory has one component more than the directory, its name. -/
theorem components_join (p : Path) {name : Bytes} (proper : IsEntryName name) :
    (p.join name).components = p.components ++ [.name name] := by
  have one : [name].filterMap componentOf? = [.name name] := by
    rw [List.filterMap_cons_some (componentOf?_eq_some proper), List.filterMap_nil]
  have nonempty' := join_bytes_ne_nil p proper
  rcases split_join p proper with ⟨empty, pieces⟩ |
    ⟨nonempty, first, rest, ending, blank, pieces, pieces'⟩
  · have none : p.components = [] := by
      rw [components, empty]
      rfl
    rw [components_of_split pieces nonempty', none, if_neg (by simpa using proper.nonempty),
      if_neg (by simpa using proper.noDot), one]
    rfl
  · have nothing : ending.filterMap componentOf? = [] :=
      List.filterMap_eq_nil_iff.mpr fun piece mem => by rw [blank piece mem]; rfl
    rw [components_of_split pieces' nonempty', components_of_split pieces nonempty,
      List.filterMap_append, List.filterMap_append, one, nothing, List.append_nil,
      List.append_assoc]

end Pieces

/-- The path that some names lead to from another one. -/
def joinAll (p : Path) (names : List Bytes) : Path :=
  names.foldl join p

section Names

variable {names names' : List Bytes}

theorem joinAll_concat (p : Path) (names : List Bytes) (name : Bytes) :
    p.joinAll (names ++ [name]) = (p.joinAll names).join name := by
  rw [joinAll, List.foldl_append]
  rfl

theorem components_joinAll (p : Path) (proper : ∀ name ∈ names, IsEntryName name) :
    (p.joinAll names).components = p.components ++ names.map .name := by
  induction names generalizing p with
  | nil => rw [joinAll, List.foldl_nil, List.map_nil, List.append_nil]
  | cons name rest ih =>
      obtain ⟨first, later⟩ := List.forall_mem_cons.mp proper
      have onward := ih (p.join name) later
      rw [components_join p first, List.append_assoc] at onward
      exact onward

/-- The order of paths tells apart what different names lead to. -/
theorem eq_of_compare_joinAll {p : Path} (proper : ∀ name ∈ names, IsEntryName name)
    (proper' : ∀ name ∈ names', IsEntryName name)
    (same : (p.joinAll names).compare (p.joinAll names') = .eq) : names = names' := by
  rw [compare_eq_eq_iff, components_joinAll p proper, components_joinAll p proper',
    List.append_cancel_left_eq] at same
  exact List.map_injective_iff.mpr (fun _ _ => Component.name.inj) same

theorem fileName?_joinAll (p : Path) {name : Bytes}
    (proper : ∀ other ∈ names ++ [name], IsEntryName other) :
    (p.joinAll (names ++ [name])).fileName? = some name := by
  rw [fileName?, components_joinAll p proper, List.map_append, ← List.append_assoc]
  simp

end Names

end Path

end SpeedupStudy
