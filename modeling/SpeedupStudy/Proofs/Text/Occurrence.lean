/-
# Where a list occurs in another one

A list occurs in another one exactly if it is an infix of it. An element at the end that is not
part of the wanted list makes no difference to where that is found, and nothing is found where one
of its elements is missing.
-/

import Mathlib
import SpeedupStudy.Text.Pieces

namespace SpeedupStudy.Text

universe u

variable {α : Type u} {a : α} {wanted s : List α}

/-- What a list starts with comes before every element that it does not contain. -/
theorem isPrefix_of_append_cons {rest : List α} (other : a ∉ wanted)
    (start : wanted <+: s ++ a :: rest) : wanted <+: s := by
  rcases Nat.lt_or_ge s.length wanted.length with longer | short
  · have upTo : s ++ [a] <+: s ++ a :: rest := ⟨rest, by simp⟩
    have inside : s ++ [a] <+: wanted :=
      List.prefix_of_prefix_length_le upTo start (by simpa using longer)
    exact absurd (inside.subset (by simp)) other
  · exact List.prefix_of_prefix_length_le start (List.prefix_append s _) short

variable [BEq α] [LawfulBEq α]

theorem occursIn_iff_isInfix : occursIn wanted s = true ↔ wanted <:+: s := by
  induction s with
  | nil => cases wanted <;> simp [occursIn, after?]
  | cons b rest ih =>
      rw [List.infix_cons_iff, ← ih, occursIn, after?, occursIn]
      by_cases here : wanted.isPrefixOf (b :: rest) = true
      · rw [if_pos here]
        exact iff_of_true rfl (.inl (List.isPrefixOf_iff_prefix.mp here))
      · rw [if_neg here]
        have later := mt List.isPrefixOf_iff_prefix.mpr here
        simp [later]

/-- What has an element that is missing does not occur. -/
theorem occursIn_eq_false_of_not_mem (mem : a ∈ wanted) (missing : a ∉ s) :
    occursIn wanted s = false := by
  rw [← Bool.not_eq_true, occursIn_iff_isInfix]
  exact fun inside => missing (inside.subset mem)

/-- An element at the end of a list adds no occurrence of what does not contain it. -/
theorem occursIn_concat (other : a ∉ wanted) : occursIn wanted (s ++ [a]) = occursIn wanted s := by
  rw [Bool.eq_iff_iff, occursIn_iff_isInfix, occursIn_iff_isInfix, List.infix_concat_iff]
  constructor
  · rintro (atEnd | inside)
    · rcases List.suffix_concat_iff.mp atEnd with rfl | ⟨front, rfl, -⟩
      · exact List.nil_infix
      · exact absurd (List.mem_append_right front List.mem_cons_self) other
    · exact inside
  · exact .inr

/-- The first occurrence is found where its first element does not come before. -/
theorem after?_append {front rest : List α} (first : a ∉ front) :
    after? (a :: wanted) (front ++ (a :: wanted ++ rest)) = some rest := by
  induction front with
  | nil => simp [after?]
  | cons b front ih =>
      have other : ¬ a = b := fun same => first (same ▸ List.mem_cons_self)
      have later : a ∉ front := fun mem => first (List.mem_cons_of_mem b mem)
      have elsewhere : (a :: wanted).isPrefixOf (b :: (front ++ (a :: wanted ++ rest))) = false := by
        simp [List.isPrefixOf, other]
      rw [List.cons_append, after?, elsewhere]
      exact ih later

/-- What follows an occurrence goes on to the end of the list. -/
theorem after?_concat (other : a ∉ wanted) (nonempty : wanted ≠ []) :
    after? wanted (s ++ [a]) = (after? wanted s).map (· ++ [a]) := by
  have same : ∀ s : List α, wanted.isPrefixOf (s ++ [a]) = wanted.isPrefixOf s := by
    intro s
    rw [Bool.eq_iff_iff, List.isPrefixOf_iff_prefix, List.isPrefixOf_iff_prefix,
      List.prefix_concat_iff]
    exact or_iff_right fun whole => other (whole ▸ List.mem_append_right s List.mem_cons_self)
  induction s with
  | nil =>
      have here : wanted.isPrefixOf [a] = false := by
        rw [← List.nil_append [a], same []]
        cases wanted with
        | nil => exact absurd rfl nonempty
        | cons b wanted => rfl
      simp [after?, here, nonempty]
  | cons b rest ih =>
      rw [List.cons_append, after?, after?, ← List.cons_append, same (b :: rest)]
      by_cases here : wanted.isPrefixOf (b :: rest) = true
      · rw [if_pos here, if_pos here, Option.map_some, List.drop_append_of_le_length]
        exact (List.isPrefixOf_iff_prefix.mp here).length_le
      · rw [if_neg here, if_neg here, ih]

end SpeedupStudy.Text
