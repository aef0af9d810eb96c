/-
# Cutting and joining are inverse

Cutting a list at a separator and joining the pieces again gives the list back, and joining pieces
that do not contain the separator and cutting again gives the pieces back. The cut of this library
is the one of the core library, so both laws are those of `List.splitOn`.
-/

import Mathlib
import SpeedupStudy.Text.Pieces

namespace SpeedupStudy.Text

universe u
variable {α : Type u}

theorem consFirst_eq_modifyHead (a : α) {pieces : List (List α)} (nonempty : pieces ≠ []) :
    consFirst a pieces = pieces.modifyHead (a :: ·) := by
  cases pieces with
  | nil => exact absurd rfl nonempty
  | cons piece rest => rfl

theorem splitWhen_eq_splitOnP (p : α → Bool) (s : List α) : splitWhen p s = s.splitOnP p := by
  induction s with
  | nil => rw [List.splitOnP_nil]; rfl
  | cons a rest ih =>
      have step : splitWhen p (a :: rest) =
          if p a then [] :: splitWhen p rest else consFirst a (splitWhen p rest) := rfl
      rw [step, List.splitOnP_cons_eq_if_modifyHead, ih,
        consFirst_eq_modifyHead a (List.splitOnP_ne_nil p rest)]

theorem splitWhen_cons (p : α → Bool) (a : α) (s : List α) :
    splitWhen p (a :: s) = if p a then [] :: splitWhen p s else consFirst a (splitWhen p s) :=
  rfl

/-- A list without a cut is one piece. -/
theorem splitWhen_eq_singleton {p : α → Bool} {piece : List α} (uncut : ∀ a ∈ piece, p a = false) :
    splitWhen p piece = [piece] := by
  rw [splitWhen_eq_splitOnP]
  exact List.splitOnP_eq_singleton uncut

/-- What follows a cut without having one itself is the last piece. -/
theorem splitWhen_append_cons {p : α → Bool} {a : α} (cut : p a = true) (s : List α)
    {piece : List α} (uncut : ∀ a ∈ piece, p a = false) :
    splitWhen p (s ++ a :: piece) = splitWhen p s ++ [piece] := by
  rw [splitWhen_eq_splitOnP, splitWhen_eq_splitOnP, List.splitOnP_append_cons s piece cut,
    List.splitOnP_eq_singleton uncut]

/-- A cut at the end of a list leaves an empty piece after it. -/
theorem splitWhen_concat_of_pos {p : α → Bool} {a : α} (cut : p a = true) (s : List α) :
    splitWhen p (s ++ [a]) = splitWhen p s ++ [[]] :=
  splitWhen_append_cons cut s nofun

/-- Where there is no cut at the end of a list, the last piece goes on. -/
theorem exists_splitWhen_concat_of_neg {p : α → Bool} {a : α} (uncut : p a = false) (s : List α) :
    ∃ front last, splitWhen p s = front ++ [last] ∧
      splitWhen p (s ++ [a]) = front ++ [last ++ [a]] := by
  induction s with
  | nil => exact ⟨[], [], rfl, by simp [splitWhen, consFirst, uncut]⟩
  | cons b rest ih =>
      obtain ⟨front, last, pieces, pieces'⟩ := ih
      rw [List.cons_append, splitWhen_cons, splitWhen_cons, pieces, pieces']
      split
      · exact ⟨[] :: front, last, rfl, rfl⟩
      · cases front with
        | nil => exact ⟨[], b :: last, rfl, rfl⟩
        | cons piece front => exact ⟨(b :: piece) :: front, last, rfl, rfl⟩

variable [BEq α] [LawfulBEq α]

/-- Joining the pieces of a cut gives the list back. -/
theorem join_split (separator : α) (s : List α) : join separator (split separator s) = s := by
  rw [split, splitWhen_eq_splitOnP]
  exact List.intercalate_splitOn separator

/-- Cutting joined pieces gives the pieces back, provided there are some and none of them contains
the separator. -/
theorem split_join {separator : α} {pieces : List (List α)}
    (absent : ∀ piece ∈ pieces, separator ∉ piece) (nonempty : pieces ≠ []) :
    split separator (join separator pieces) = pieces := by
  rw [split, splitWhen_eq_splitOnP]
  exact List.splitOn_intercalate separator absent nonempty

theorem split_eq_singleton {separator : α} {piece : List α} (absent : separator ∉ piece) :
    split separator piece = [piece] :=
  splitWhen_eq_singleton fun _ mem => beq_eq_false_iff_ne.mpr fun same => absent (same ▸ mem)

/-- What follows a separator without having one itself is the last piece. -/
theorem split_append_cons {separator : α} (s : List α) {piece : List α}
    (absent : separator ∉ piece) :
    split separator (s ++ separator :: piece) = split separator s ++ [piece] :=
  splitWhen_append_cons (p := (· == separator)) (beq_self_eq_true separator) s
    fun _ mem => beq_eq_false_iff_ne.mpr fun same => absent (same ▸ mem)

/-- No piece of a cut contains the separator. -/
theorem not_mem_of_mem_split {separator : α} {s piece : List α}
    (mem : piece ∈ split separator s) : separator ∉ piece := by
  induction s generalizing piece with
  | nil =>
      have empty : piece = [] := by simpa [split, splitWhen] using mem
      simp [empty]
  | cons a rest ih =>
      have step : split separator (a :: rest) =
          if a == separator then [] :: split separator rest
          else consFirst a (split separator rest) := rfl
      rw [step] at mem
      split at mem
      · rcases List.mem_cons.mp mem with rfl | later
        · simp
        · exact ih later
      · next different =>
          have other : separator ≠ a := fun same => different (by simp [same])
          cases pieces : split separator rest with
          | nil =>
              have single : piece = [a] := by simpa [pieces, consFirst] using mem
              simpa [single] using other
          | cons first later =>
              rw [pieces] at mem ih
              rcases List.mem_cons.mp mem with rfl | mem
              · simpa [other] using ih List.mem_cons_self
              · exact ih (List.mem_cons_of_mem _ mem)

omit [BEq α] [LawfulBEq α] in
@[simp]
theorem join_singleton (separator : α) (piece : List α) : join separator [piece] = piece := by
  simp [join]

omit [BEq α] [LawfulBEq α] in
theorem join_cons {separator : α} {piece : List α} {pieces : List (List α)}
    (nonempty : pieces ≠ []) :
    join separator (piece :: pieces) = piece ++ separator :: join separator pieces := by
  simp [join, List.intercalate_cons_of_ne_nil nonempty]

omit [BEq α] [LawfulBEq α] in
theorem join_append {separator : α} {first second : List (List α)} (nonempty : first ≠ [])
    (nonempty' : second ≠ []) :
    join separator (first ++ second) =
      join separator first ++ separator :: join separator second := by
  induction first with
  | nil => exact absurd rfl nonempty
  | cons piece rest ih =>
      cases rest with
      | nil => simp [join_cons nonempty']
      | cons next rest =>
          have front : join separator (piece :: next :: rest) =
              piece ++ separator :: join separator (next :: rest) := join_cons (by simp)
          rw [List.cons_append, join_cons (by simp), ih (by simp), front]
          simp

omit [BEq α] [LawfulBEq α] in
/-- Cutting joined pieces wherever elements are of the kind of the separator gives the pieces back,
provided there are some and none of them has such an element. -/
theorem splitWhen_join {p : α → Bool} {separator : α} (cut : p separator = true)
    {pieces : List (List α)} (absent : ∀ piece ∈ pieces, ∀ a ∈ piece, p a = false)
    (nonempty : pieces ≠ []) : splitWhen p (join separator pieces) = pieces := by
  rw [splitWhen_eq_splitOnP]
  induction pieces with
  | nil => exact absurd rfl nonempty
  | cons piece rest ih =>
      have whole := absent piece List.mem_cons_self
      cases rest with
      | nil =>
          rw [join_singleton]
          exact List.splitOnP_eq_singleton whole
      | cons next rest =>
          rw [join_cons (by simp), List.splitOnP_append_cons_of_forall_mem whole separator cut,
            ih (fun piece mem => absent piece (List.mem_cons_of_mem _ mem)) (by simp)]

end SpeedupStudy.Text
