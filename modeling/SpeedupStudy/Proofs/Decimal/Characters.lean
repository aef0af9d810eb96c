/-
# The characters of numerals

A text that is read as a finite number consists of digits, signs, points and the letters that
begin an exponent. No such character is blank or stands in brackets, and each is one byte in a
file.
-/

import Mathlib
import SpeedupStudy.Proofs.Decimal.Text

namespace SpeedupStudy

namespace Decimal

/-- The characters of decimal notation. -/
def characters : List Char :=
  ['0', '1', '2', '3', '4', '5', '6', '7', '8', '9', '+', '-', '.', 'e', 'E']

theorem mem_characters_of_isDigit {c : Char} (digit : c.isDigit = true) : c ∈ characters := by
  have bounds : 48 ≤ c.toNat ∧ c.toNat ≤ 57 := by
    simpa [Char.isDigit, UInt32.le_iff_toNat_le] using digit
  have listed : c = Char.ofNat (48 + (c.toNat - 48)) := by
    rw [show 48 + (c.toNat - 48) = c.toNat by omega, Char.ofNat_toNat]
  have all : ∀ n < 10, Char.ofNat (48 + n) ∈ characters := by decide
  rw [listed]
  exact all (c.toNat - 48) (by omega)

theorem AllDigits.subset_characters {s : List Char} (digits : AllDigits s) : s ⊆ characters :=
  fun c mem => mem_characters_of_isDigit (digits c mem)

theorem characters_facts {c : Char} (mem : c ∈ characters) :
    c.toNat < 0x80 ∧ Text.isBlank c = false ∧ c ≠ '[' ∧ c ≠ ')' := by
  fin_cases mem <;> decide

theorem splitSign_subset {s : List Char} (signed : (splitSign s).2 ⊆ characters) :
    s ⊆ characters := by
  unfold splitSign at signed
  split at signed
  · exact List.cons_subset.mpr ⟨by decide, signed⟩
  · exact List.cons_subset.mpr ⟨by decide, signed⟩
  · exact signed

theorem allDigits_spanDigits (s : List Char) : AllDigits (spanDigits s).1 :=
  fun _ mem => (List.mem_takeWhile_imp mem)

theorem spanDigits_subset {s : List Char} (rest : (spanDigits s).2 ⊆ characters) :
    s ⊆ characters := by
  have parts : s = (spanDigits s).1 ++ (spanDigits s).2 := List.takeWhile_append_dropWhile.symm
  rw [parts]
  exact List.append_subset.mpr ⟨(allDigits_spanDigits s).subset_characters, rest⟩

theorem subset_of_readExponent? {s : List Char} {exponent : Int}
    (read : readExponent? s = some exponent) : s ⊆ characters := by
  cases s with
  | nil => exact List.nil_subset characters
  | cons c rest =>
      rw [readExponent?] at read
      split at read
      · next letter =>
          simp only [] at read
          split at read
          · cases read
          · next digits =>
              have first : c ∈ characters := by
                rcases (Bool.or_eq_true _ _).mp letter with small | large
                · rw [of_decide_eq_true small]; decide
                · rw [of_decide_eq_true large]; decide
              have all : AllDigits (splitSign rest).2 := by
                simp only [Bool.or_eq_true, List.any_eq_true, not_or, not_exists, not_and] at digits
                exact fun c mem => by simpa using digits.2 c mem
              exact List.cons_subset.mpr ⟨first, splitSign_subset all.subset_characters⟩
      · cases read

theorem subset_of_readUnsigned? {negative : Bool} {s : List Char} {d : Decimal}
    (read : readUnsigned? negative s = some d) : s ⊆ characters := by
  refine spanDigits_subset ?_
  rw [readUnsigned?] at read
  generalize spanDigits s = parts at read ⊢
  obtain ⟨whole, rest⟩ := parts
  simp only at read ⊢
  split at read
  · next fraction =>
      split_ifs at read
      obtain ⟨exponent, read, -⟩ := Option.map_eq_some_iff.mp read
      exact List.cons_subset.mpr ⟨by decide, spanDigits_subset (subset_of_readExponent? read)⟩
  · split_ifs at read
    obtain ⟨exponent, read, -⟩ := Option.map_eq_some_iff.mp read
    exact subset_of_readExponent? read

end Decimal

/-- A text that is read as a decimal is one in decimal notation. -/
theorem Numeral.subset_of_read? {s : List Char} {d : Decimal} (read : read? s = some (.decimal d)) :
    s ⊆ Decimal.characters := by
  refine Decimal.splitSign_subset ?_
  rw [read?] at read
  simp only at read
  split_ifs at read
  · cases read
  · cases read
  · obtain ⟨_, unsigned, -⟩ := Option.map_eq_some_iff.mp read
    exact Decimal.subset_of_readUnsigned? unsigned

/-- A text that is read as a finite number is one in decimal notation: the words stand for numbers
that are not finite. -/
theorem subset_of_readFloat? {s : List Char} {x : Float} (read : readFloat? s = some x)
    (finite : x.isFinite = true) : s ⊆ Decimal.characters := by
  obtain ⟨numeral, numeralRead, rfl⟩ := Option.map_eq_some_iff.mp read
  cases numeral with
  | decimal d => exact Numeral.subset_of_read? numeralRead
  | infinity negative =>
      have infinite : (Numeral.infinity negative).toFloat.isFinite = false := by
        cases negative <;> decide +kernel
      exact absurd finite (by rw [infinite]; decide)
  | undefined =>
      have infinite : Numeral.undefined.toFloat.isFinite = false := by decide +kernel
      exact absurd finite (by rw [infinite]; decide)

end SpeedupStudy
