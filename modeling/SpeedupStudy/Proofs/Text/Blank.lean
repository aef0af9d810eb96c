/-
# Blanks at the ends of a text

Blanks around a text make no difference to its words, nor to what is left of it where the blanks
at its ends are dropped.
-/

import Mathlib
import SpeedupStudy.Proofs.Text.Pieces
import SpeedupStudy.Text.Blank

namespace SpeedupStudy.Text

variable {c : Char}

/-- No printed character of ASCII but the space is blank. -/
theorem isBlank_of_printed (printed : 0x20 < c.toNat ∧ c.toNat < 0x7F) : isBlank c = false := by
  simp only [isBlank, Bool.or_eq_false_iff, Bool.and_eq_false_iff, decide_eq_false_iff_not,
    beq_eq_false_iff_ne]
  omega

theorem trim_cons (blank : isBlank c = true) (s : List Char) : trim (c :: s) = trim s := by
  rw [trim, trimLeft, List.dropWhile_cons_of_pos blank]
  rfl

theorem trimRight_concat (blank : isBlank c = true) (s : List Char) :
    trimRight (s ++ [c]) = trimRight s := by
  rw [trimRight, List.reverse_concat, List.dropWhile_cons_of_pos blank]
  rfl

theorem trim_concat (blank : isBlank c = true) (s : List Char) : trim (s ++ [c]) = trim s := by
  rw [trim, trimLeft, List.dropWhile_append]
  by_cases empty : (s.dropWhile isBlank).isEmpty = true
  · rw [if_pos empty, List.dropWhile_cons_of_pos blank, List.dropWhile_nil, trim, trimLeft,
      List.isEmpty_iff.mp empty]
  · rw [if_neg empty, trimRight_concat blank]
    rfl

/-- Any number of blanks around a text is dropped. -/
theorem trim_replicate (blank : isBlank c = true) (before after : Nat) (s : List Char) :
    trim (List.replicate before c ++ s ++ List.replicate after c) = trim s := by
  have front : ∀ s, trim (List.replicate before c ++ s) = trim s := by
    intro s
    induction before with
    | zero => rfl
    | succ before ih => rw [List.replicate_succ, List.cons_append, trim_cons blank, ih]
  rw [List.append_assoc, front]
  induction after with
  | zero => rw [List.replicate_zero, List.append_nil]
  | succ after ih => rw [List.replicate_succ', ← List.append_assoc, trim_concat blank, ih]

/-- A blank at the end of a text makes no word. -/
theorem words_concat (blank : isBlank c = true) (s : List Char) : words (s ++ [c]) = words s := by
  rw [words, splitWhen_concat_of_pos blank, List.filter_append]
  exact List.append_nil _

/-- The words between blanks are found again. -/
theorem words_join (blank : isBlank c = true) {pieces : List (List Char)}
    (unblank : ∀ piece ∈ pieces, ∀ a ∈ piece, isBlank a = false) (nonempty : pieces ≠ []) :
    words (join c pieces) = pieces.filter (! ·.isEmpty) := by
  rw [words, splitWhen_join blank unblank nonempty]

end SpeedupStudy.Text
