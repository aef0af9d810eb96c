/-
# What a map holds

A map is known by the value that it has under each name. Putting a value in changes that name only,
and putting in all entries of another map lets the values of that map prevail. A map is filled again
from its own entries.
-/

import Mathlib
import SpeedupStudy.NameMap

namespace SpeedupStudy

namespace NameMap

universe u

variable {α : Type u}

theorem lookup_cons (name key : String) (value : α) (entries : List (String × α)) :
    ((key, value) :: entries).lookup name =
      if name = key then some value else entries.lookup name := by
  rw [List.lookup_cons]
  by_cases same : name = key
  · rw [same, beq_self_eq_true, if_pos rfl]
  · rw [beq_false_of_ne same, if_neg same]

theorem lookup_insertEntry (name other : String) (value : α) (entries : List (String × α)) :
    (insertEntry name value entries).lookup other =
      if other = name then some value else entries.lookup other := by
  induction entries with
  | nil => rw [insertEntry, lookup_cons]
  | cons first rest ih =>
      obtain ⟨key, old⟩ := first
      rw [insertEntry]
      split
      · rw [lookup_cons]
      · split
        · next same =>
            subst same
            rw [lookup_cons, lookup_cons]
            split <;> rfl
        · next different =>
            rw [lookup_cons, ih, lookup_cons]
            by_cases same : other = key
            · rw [if_pos same, if_pos same, if_neg fun other' => different (other'.symm.trans same)]
            · rw [if_neg same, if_neg same]

/-- Putting a value in changes what is under its name only. -/
theorem get?_insert (m : NameMap α) (name other : String) (value : α) :
    (m.insert name value).get? other = if other = name then some value else m.get? other :=
  lookup_insertEntry name other value m.entries

theorem nodup_names (m : NameMap α) : (m.entries.map (·.1)).Nodup := by
  rw [List.nodup_iff_pairwise_ne, List.pairwise_map]
  exact m.sorted.imp fun less => ne_of_lt less

theorem lookup_eq_none_of_not_mem {entries : List (String × α)} {name : String}
    (absent : name ∉ entries.map (·.1)) : entries.lookup name = none := by
  rw [List.lookup_eq_none_iff]
  intro entry mem
  rw [bne_iff_ne]
  rintro rfl
  exact absent (List.mem_map_of_mem mem)

theorem lookup_eq_some_of_mem {entries : List (String × α)} {name : String} {value : α}
    (distinct : (entries.map (·.1)).Nodup) (mem : (name, value) ∈ entries) :
    entries.lookup name = some value := by
  induction entries with
  | nil => cases mem
  | cons first rest ih =>
      rw [List.map_cons, List.nodup_cons] at distinct
      rcases List.mem_cons.mp mem with rfl | mem
      · simp
      · have other : name ≠ first.1 := by
          rintro rfl
          exact distinct.1 (List.mem_map.mpr ⟨_, mem, rfl⟩)
        rw [List.lookup_cons, beq_false_of_ne other]
        exact ih distinct.2 mem

/-- Entries with different names have the same values in any order. -/
theorem lookup_perm {entries entries' : List (String × α)} (distinct : (entries.map (·.1)).Nodup)
    (reordered : entries.Perm entries') (name : String) :
    entries.lookup name = entries'.lookup name := by
  induction reordered with
  | nil => rfl
  | cons entry _ ih => rw [lookup_cons, lookup_cons, ih distinct.of_cons]
  | swap first second rest =>
      rw [List.map_cons, List.map_cons, List.nodup_cons] at distinct
      rw [lookup_cons, lookup_cons, lookup_cons, lookup_cons]
      by_cases here : name = first.1
      · have other : name ≠ second.1 := fun there =>
          distinct.1 (List.mem_cons.mpr (.inl (there.symm.trans here)))
        rw [if_pos here, if_neg other, if_pos here]
      · rw [if_neg here, if_neg here]
  | trans first _ ih ih' =>
      exact (ih distinct).trans (ih' ((first.map _).nodup_iff.mp distinct))

/-- The entries of a map are the values under their names. -/
theorem mem_entries_iff (m : NameMap α) {name : String} {value : α} :
    (name, value) ∈ m.entries ↔ m.get? name = some value := by
  refine ⟨lookup_eq_some_of_mem m.nodup_names, fun found => ?_⟩
  obtain ⟨front, rest, entries, -⟩ := List.lookup_eq_some_iff.mp found
  rw [entries]
  simp

/-- A name that comes after all others goes to the end. -/
theorem insertEntry_of_forall_lt {name : String} (value : α) {entries : List (String × α)}
    (after : ∀ entry ∈ entries, entry.1 < name) :
    insertEntry name value entries = entries ++ [(name, value)] := by
  induction entries with
  | nil => rfl
  | cons first rest ih =>
      have before : first.1 < name := after first List.mem_cons_self
      have notLess : ¬ name < first.1 := fun less =>
        String.lt_irrefl _ (String.lt_trans less before)
      have other : name ≠ first.1 := fun same => String.lt_irrefl _ (same ▸ before)
      rw [insertEntry, if_neg notLess, if_neg other,
        ih fun entry mem => after entry (List.mem_cons_of_mem _ mem), List.cons_append]

/-- A name without a value becomes one name more. -/
theorem names_insert_perm {m : NameMap α} {name : String} (value : α)
    (absent : m.get? name = none) : (m.insert name value).names.Perm (name :: m.names) := by
  have inserted : ∀ entries : List (String × α), entries.lookup name = none →
      ((insertEntry name value entries).map (·.1)).Perm (name :: entries.map (·.1)) := by
    intro entries
    induction entries with
    | nil => exact fun _ => .refl _
    | cons first rest ih =>
        intro absent
        obtain ⟨key, old⟩ := first
        rw [lookup_cons] at absent
        by_cases same : name = key
        · rw [if_pos same] at absent
          cases absent
        · rw [if_neg same] at absent
          rw [insertEntry, if_neg same]
          split
          · exact .refl _
          · exact ((ih absent).cons key).trans (.swap name key _)
  exact inserted m.entries absent

/-- A map is filled again from its entries. -/
theorem ofList_entries (m : NameMap α) : ofList m.entries = m := by
  have filled : ∀ (later : List (String × α)) (n : NameMap α),
      (n.entries ++ later).Pairwise (·.1 < ·.1) →
      (later.foldl (fun m entry => m.insert entry.1 entry.2) n).entries = n.entries ++ later := by
    intro later
    induction later with
    | nil => simp
    | cons entry later ih =>
        intro n sorted
        have next : (n.insert entry.1 entry.2).entries = n.entries ++ [entry] :=
          insertEntry_of_forall_lt _ fun before mem =>
            (List.pairwise_append.mp sorted).2.2 before mem entry List.mem_cons_self
        rw [List.foldl_cons, ih _ (by rwa [next, List.append_assoc]), next, List.append_assoc]
        rfl
  exact ext (filled m.entries empty m.sorted)

/-- Where the entries of another map are put in, its values prevail. -/
theorem get?_insertAll (m n : NameMap α) (name : String) :
    (m.insertAll n.entries).get? name = (n.get? name).or (m.get? name) := by
  have inserted : ∀ (entries : List (String × α)) (m : NameMap α), (entries.map (·.1)).Nodup →
      (m.insertAll entries).get? name = (entries.lookup name).or (m.get? name) := by
    intro entries
    induction entries with
    | nil => intro m _; rfl
    | cons first rest ih =>
        intro m distinct
        obtain ⟨key, value⟩ := first
        rw [List.map_cons, List.nodup_cons] at distinct
        have later : (m.insertAll ((key, value) :: rest)).get? name = _ :=
          ih (m.insert key value) distinct.2
        rw [later, get?_insert, lookup_cons]
        by_cases same : name = key
        · subst same
          rw [lookup_eq_none_of_not_mem distinct.1, if_pos rfl, if_pos rfl]
          rfl
        · rw [if_neg same, if_neg same]
  exact inserted n.entries m n.nodup_names

end NameMap

end SpeedupStudy
