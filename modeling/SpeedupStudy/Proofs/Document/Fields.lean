/-
# Structures are read as they are written

A structure is written as the table of its fields that are present. Its names differ, so each field
is found again, present or absent. What a field is read as is settled by the readers of plain
values.
-/

import Mathlib
import SpeedupStudy.Config.Document

namespace SpeedupStudy

variable {α β : Type}

/-- A list is read where each item is read. -/
theorem mapM_eq_some_iff {f : α → Option β} {items : List α} {results : List β} :
    items.mapM f = some results ↔
      List.Forall₂ (fun item result => f item = some result) items results := by
  induction items generalizing results with
  | nil => cases results <;> simp
  | cons item items ih =>
      rw [List.mapM_cons]
      cases first : f item with
      | none => cases results <;> simp [first]
      | some result =>
          cases later : items.mapM f with
          | none => cases results <;> simp [first, ← ih, later]
          | some results' => cases results <;> simp [first, ← ih, later]

/-- A list is read exactly if every item is. -/
theorem isSome_mapM {f : α → Option β} {items : List α} :
    (items.mapM f).isSome ↔ ∀ item ∈ items, (f item).isSome := by
  induction items with
  | nil => simp
  | cons item items ih =>
      rw [List.mapM_cons, List.forall_mem_cons, ← ih]
      cases f item <;> cases items.mapM f <;> simp

/-- What is written item by item is read item by item. -/
theorem mapM_map_of_inverse {f : α → β} {g : β → Option α} (inverse : ∀ a, g (f a) = some a)
    (items : List α) : (items.map f).mapM g = some items := by
  rw [mapM_eq_some_iff, List.forall₂_map_left_iff, List.forall₂_same]
  exact fun a _ => inverse a

namespace Value

@[simp]
theorem word?_word (n : UInt64) : word? (word n) = some n := by
  have small : n.toNat ≤ maxCount := Nat.le_sub_one_of_lt n.toNat_lt
  have value : (word n).count? = some n.toNat := by
    simp [word, natural, count?, small]
  rw [word?, value, Option.map_some, UInt64.ofNat_toNat]

theorem list?_map (write : α → Value) {read? : Value → Option α}
    (inverse : ∀ a, read? (write a) = some a) (items : List α) :
    list? read? (list (items.map write)) = some items :=
  mapM_map_of_inverse inverse items

theorem table?_map (write : α → Value) {read? : Value → Option α}
    (inverse : ∀ a, read? (write a) = some a) (fields : List (String × α)) :
    table? read? (table (fields.map fun (name, a) => (name, write a))) = some fields := by
  have inverse' : ∀ field : String × α,
      (read? (write field.2)).map (field.1, ·) = some field := by
    simp [inverse]
  exact mapM_map_of_inverse inverse' fields

theorem choice?_text (format : DocumentFormat) (ofName? : String → Option α) (name : String) :
    choice? format ofName? (text name) = ofName? name :=
  rfl

/-- The fields that are present. -/
def present (fields : List (String × Option Value)) : List (String × Value) :=
  fields.filterMap fun (name, value) => value.map (name, ·)

theorem present_cons (name : String) (value : Option Value)
    (fields : List (String × Option Value)) :
    present ((name, value) :: fields) = (value.map (name, ·)).toList ++ present fields := by
  cases value <;> simp [present]

theorem mem_names_of_mem_present {fields : List (String × Option Value)} {field : String × Value}
    (mem : field ∈ present fields) : field.1 ∈ fields.map (·.1) := by
  obtain ⟨⟨name, value⟩, mem', found⟩ := List.mem_filterMap.mp mem
  obtain ⟨value, -, rfl⟩ := Option.map_eq_some_iff.mp found
  exact List.mem_map.mpr ⟨_, mem', rfl⟩

/-- The fields that are present keep different names. -/
theorem nodup_present (fields : List (String × Option Value))
    (distinct : (fields.map (·.1)).Nodup) : ((present fields).map (·.1)).Nodup := by
  induction fields with
  | nil => exact List.nodup_nil
  | cons field fields ih =>
      obtain ⟨name, value⟩ := field
      rw [List.map_cons, List.nodup_cons] at distinct
      have later := ih distinct.2
      cases value with
      | none => simpa [present_cons] using later
      | some value =>
          have other : name ∉ (present fields).map (·.1) := by
            intro mem
            obtain ⟨field, present, rfl⟩ := List.mem_map.mp mem
            exact distinct.1 (mem_names_of_mem_present present)
          rw [present_cons]
          exact List.nodup_cons.mpr ⟨other, later⟩

/-- Under each name there is its field alone, if it is present. -/
theorem filter_present {fields : List (String × Option Value)}
    (distinct : (fields.map (·.1)).Nodup) {name : String} {value : Option Value}
    (mem : (name, value) ∈ fields) :
    (present fields).filter (·.1 == name) = (value.map (name, ·)).toList := by
  induction fields with
  | nil => simp at mem
  | cons field fields ih =>
      obtain ⟨name', value'⟩ := field
      rw [List.map_cons, List.nodup_cons] at distinct
      rw [present_cons, List.filter_append]
      rcases List.mem_cons.mp mem with same | mem
      · obtain ⟨rfl, rfl⟩ := Prod.mk.inj same
        have others : (present fields).filter (·.1 == name) = [] := by
          rw [List.filter_eq_nil_iff]
          intro field mem same
          exact distinct.1 (eq_of_beq same ▸ mem_names_of_mem_present mem)
        rw [others]
        cases value <;> simp
      · have other : name' ≠ name := by
          rintro rfl
          exact distinct.1 (List.mem_map.mpr ⟨_, mem, rfl⟩)
        rw [ih distinct.2 mem]
        cases value' <;> simp [other]

/-- The fields of a structure are found under their names, present or absent. -/
theorem fields?_tableOfPresent (format : DocumentFormat) (fields : List (String × Option Value))
    (distinct : (fields.map (·.1)).Nodup) :
    (tableOfPresent fields).fields? format (fields.map (·.1)) =
      some ⟨false, fields.map (·.2)⟩ := by
  have found : (fields.map (·.1)).mapM (fieldOf? (present fields)) = some (fields.map (·.2)) := by
    rw [mapM_eq_some_iff, List.forall₂_map_left_iff, List.forall₂_map_right_iff, List.forall₂_same]
    intro field mem
    rw [fieldOf?, filter_present distinct mem]
    cases field.2 <;> rfl
  exact congrArg (Option.map (Fields.mk false)) found

end Value

end SpeedupStudy
