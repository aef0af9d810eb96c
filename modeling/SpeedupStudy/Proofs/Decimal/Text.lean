/-
# Reading decimals in plain notation

A decimal in plain notation is digits with at most one point. Reading it gives the decimal back,
except that a whole number is read with all its digits and without an exponent. The text begins and
ends with a character that is not blank, so nothing is lost where blanks around it are dropped.
-/

import Mathlib
import SpeedupStudy.Decimal.Numeral
import SpeedupStudy.Text.Blank

namespace SpeedupStudy.Decimal

theorem ofDigits_eq_ofDigitChars (s : List Char) : ofDigits s = Nat.ofDigitChars 10 s 0 :=
  Nat.ofDigitChars_eq_foldl.symm

theorem ofDigits_toDigits (n : Nat) : ofDigits (Nat.toDigits 10 n) = n := by
  rw [ofDigits_eq_ofDigitChars, Nat.ofDigitChars_ten_toDigits]

/-- Zeros at the end of a number multiply it by powers of ten. -/
theorem ofDigits_append_zeros (s : List Char) (count : Nat) :
    ofDigits (s ++ List.replicate count '0') = ofDigits s * 10 ^ count := by
  rw [ofDigits_eq_ofDigitChars, Nat.ofDigitChars_append, Nat.ofDigitChars_replicate_zero,
    ← ofDigits_eq_ofDigitChars, Nat.mul_comm]

/-- Zeros at the start of a number do not count. -/
theorem ofDigits_zeros_append (count : Nat) (s : List Char) :
    ofDigits (List.replicate count '0' ++ s) = ofDigits s := by
  rw [ofDigits_eq_ofDigitChars, Nat.ofDigitChars_append, Nat.ofDigitChars_replicate_zero,
    Nat.mul_zero, ← ofDigits_eq_ofDigitChars]

/-- The sign before a number. -/
def signText (negative : Bool) : List Char :=
  if negative then ['-'] else []

/-- An integer is written as its sign and its digits. -/
theorem toList_toString_int (n : Int) :
    (toString n).toList = signText (decide (n < 0)) ++ Nat.toDigits 10 n.natAbs := by
  have natural : ∀ m : Nat, (toString m).toList = Nat.toDigits 10 m := by
    simp [toString, Nat.repr]
  cases n with
  | ofNat m =>
      rw [decide_eq_false (by simp)]
      exact natural m
  | negSucc m =>
      have text : toString (Int.negSucc m) = "-" ++ toString (m + 1) := rfl
      rw [decide_eq_true (by omega), text, String.toList_append, natural]
      rfl

/-- Only digits. -/
def AllDigits (s : List Char) : Prop :=
  ∀ c ∈ s, c.isDigit = true

theorem allDigits_toDigits (n : Nat) : AllDigits (Nat.toDigits 10 n) :=
  fun _ mem => Nat.isDigit_of_mem_toDigits (by decide) (by decide) mem

theorem allDigits_zeros (count : Nat) : AllDigits (List.replicate count '0') := by
  intro c mem
  rw [List.eq_of_mem_replicate mem]
  rfl

/-- The digits of a number have no zero in front, unless it is the only digit. -/
theorem leading_toDigits (n : Nat) :
    Nat.toDigits 10 n = ['0'] ∨ (Nat.toDigits 10 n).head? ≠ some '0' := by
  induction n using Nat.strong_induction_on with
  | _ n ih =>
      by_cases small : n < 10
      · rw [Nat.toDigits_of_lt_base small]
        have all : ∀ digit < 10, [Nat.digitChar digit] = ['0'] ∨
            [Nat.digitChar digit].head? ≠ some '0' := by decide
        exact all n small
      · have positive : 0 < n / 10 := Nat.div_pos (by omega) (by decide)
        have front : (Nat.toDigits 10 (n / 10)).head? ≠ some '0' := by
          rcases ih (n / 10) (by omega) with zero | front
          · have value := Nat.ofDigitChars_ten_toDigits (n := n / 10)
            rw [zero] at value
            exact absurd value (Nat.ne_of_lt positive)
          · exact front
        refine .inr ?_
        rwa [Nat.toDigits_of_base_le (by decide) (by omega),
          List.head?_append_of_ne_nil _ Nat.toDigits_ne_nil]

theorem AllDigits.append {s t : List Char} (first : AllDigits s) (second : AllDigits t) :
    AllDigits (s ++ t) := by
  intro c mem
  rcases List.mem_append.mp mem with mem | mem
  · exact first c mem
  · exact second c mem

theorem spanDigits_eq {s : List Char} (digits : AllDigits s) (rest : List Char)
    (stop : ∀ c ∈ rest.head?, c.isDigit = false) : spanDigits (s ++ rest) = (s, rest) := by
  have none_left : rest.takeWhile Char.isDigit = [] ∧ rest.dropWhile Char.isDigit = rest := by
    cases rest with
    | nil => exact ⟨rfl, rfl⟩
    | cons c rest => simp [stop c rfl]
  rw [spanDigits, List.takeWhile_append_of_pos digits, List.dropWhile_append_of_pos digits,
    none_left.1, none_left.2, List.append_nil]

/-- Digits alone are a whole number. -/
theorem readUnsigned?_whole (negative : Bool) {s : List Char} (digits : AllDigits s)
    (nonempty : s ≠ []) : readUnsigned? negative s = some ⟨negative, ofDigits s, 0⟩ := by
  have span : spanDigits s = (s, []) := by
    have cut := spanDigits_eq digits [] (by simp)
    rwa [List.append_nil] at cut
  simp [readUnsigned?, span, nonempty, readExponent?]

/-- Digits after a point count as negative powers of ten. -/
theorem readUnsigned?_fraction (negative : Bool) {whole fraction : List Char}
    (digits : AllDigits whole) (digits' : AllDigits fraction) (nonempty : whole ≠ []) :
    readUnsigned? negative (whole ++ '.' :: fraction) =
      some ⟨negative, ofDigits (whole ++ fraction), -(fraction.length : Int)⟩ := by
  have span : spanDigits (whole ++ '.' :: fraction) = (whole, '.' :: fraction) :=
    spanDigits_eq digits ('.' :: fraction) (by simp)
  have span' : spanDigits fraction = (fraction, []) := by
    have cut := spanDigits_eq digits' [] (by simp)
    rwa [List.append_nil] at cut
  simp [readUnsigned?, span, span', nonempty, readExponent?]

/-- What the plain notation of a decimal is read as. -/
def written (d : Decimal) : Decimal :=
  if 0 ≤ d.exponent then ⟨d.negative, d.digits * 10 ^ d.exponent.toNat, 0⟩ else d

/-- The plain notation of a decimal without its sign. -/
def body (d : Decimal) : List Char :=
  plain { d with negative := false }

theorem plain_eq_body (d : Decimal) : d.plain = if d.negative then '-' :: d.body else d.body := by
  cases negative : d.negative <;> simp [plain, body, negative]

/-- The forms of the plain notation. -/
theorem body_cases (d : Decimal) :
    (0 ≤ d.exponent ∧
      d.body = Nat.toDigits 10 d.digits ++ List.replicate d.exponent.toNat '0') ∨
    (d.exponent < 0 ∧ ∃ whole fraction, d.body = whole ++ '.' :: fraction ∧ whole ≠ [] ∧
      AllDigits whole ∧ AllDigits fraction ∧ (fraction.length : Int) = -d.exponent ∧
      ofDigits (whole ++ fraction) = d.digits ∧ (whole = ['0'] ∨ whole.head? ≠ some '0')) := by
  have digits := allDigits_toDigits d.digits
  by_cases whole : 0 ≤ d.exponent
  · exact .inl ⟨whole, by simp [body, plain, whole]⟩
  · refine .inr ⟨by omega, ?_⟩
    by_cases long : d.exponent.natAbs < (Nat.toDigits 10 d.digits).length
    · refine ⟨(Nat.toDigits 10 d.digits).take ((Nat.toDigits 10 d.digits).length - d.exponent.natAbs),
        (Nat.toDigits 10 d.digits).drop ((Nat.toDigits 10 d.digits).length - d.exponent.natAbs),
        by simp [body, plain, whole, long], ?_, ?_, ?_, ?_, ?_, ?_⟩
      · intro empty
        have length := congrArg List.length empty
        rw [List.length_take, List.length_nil] at length
        omega
      · exact fun c mem => digits c (List.mem_of_mem_take mem)
      · exact fun c mem => digits c (List.mem_of_mem_drop mem)
      · rw [List.length_drop]
        omega
      · rw [List.take_append_drop, ofDigits_toDigits]
      · rw [List.head?_take, if_neg (by omega)]
        refine (leading_toDigits d.digits).imp_left fun zero => ?_
        rw [zero] at long ⊢
        simp only [List.length_singleton] at long
        omega
    · refine ⟨['0'], List.replicate (d.exponent.natAbs - (Nat.toDigits 10 d.digits).length) '0' ++
        Nat.toDigits 10 d.digits, by simp [body, plain, whole, long], by simp,
        allDigits_zeros 1, (allDigits_zeros _).append digits, ?_, ?_, .inl rfl⟩
      · rw [List.length_append, List.length_replicate]
        omega
      · have zeros := ofDigits_zeros_append 1 (List.replicate
          (d.exponent.natAbs - (Nat.toDigits 10 d.digits).length) '0' ++ Nat.toDigits 10 d.digits)
        exact zeros.trans (by rw [ofDigits_zeros_append, ofDigits_toDigits])

/-- The plain notation without its sign begins with a digit. -/
theorem exists_digit_body (d : Decimal) : ∃ c rest, d.body = c :: rest ∧ c.isDigit = true := by
  have front : ∀ {digits rest : List Char}, AllDigits digits → digits ≠ [] →
      ∃ c rest', digits ++ rest = c :: rest' ∧ c.isDigit = true := by
    intro digits rest all nonempty
    cases digits with
    | nil => exact absurd rfl nonempty
    | cons c digits => exact ⟨c, digits ++ rest, rfl, all c List.mem_cons_self⟩
  rcases body_cases d with ⟨-, text⟩ | ⟨-, whole, fraction, text, nonempty, all, -⟩
  · rw [text]
    exact front (allDigits_toDigits _) Nat.toDigits_ne_nil
  · rw [text]
    exact front all nonempty

/-- The plain notation ends with a digit. -/
theorem exists_digit_body_last (d : Decimal) :
    ∃ front c, d.body = front ++ [c] ∧ c.isDigit = true := by
  have back : ∀ (front : List Char) {digits : List Char}, AllDigits digits → digits ≠ [] →
      ∃ front' c, front ++ digits = front' ++ [c] ∧ c.isDigit = true := by
    intro front digits all nonempty
    refine ⟨front ++ digits.dropLast, digits.getLast nonempty, ?_,
      all _ (List.getLast_mem nonempty)⟩
    rw [List.append_assoc, List.dropLast_concat_getLast]
  rcases body_cases d with ⟨-, text⟩ | ⟨below, whole, fraction, text, -, -, all, length, -⟩
  · have found := back [] ((allDigits_toDigits d.digits).append
      (allDigits_zeros d.exponent.toNat)) (by simp [Nat.toDigits_ne_nil])
    rwa [List.nil_append, ← text] at found
  · have nonempty : fraction ≠ [] := by
      rintro rfl
      rw [List.length_nil] at length
      omega
    rw [text, List.append_cons]
    exact back _ all nonempty

/-- The number in plain notation without a sign is read back. -/
theorem readUnsigned?_body (d : Decimal) : readUnsigned? d.negative d.body = some d.written := by
  rcases body_cases d with ⟨whole, text⟩ |
    ⟨below, whole, fraction, text, nonempty, all, all', length, value, -⟩
  · rw [text, readUnsigned?_whole _ ((allDigits_toDigits d.digits).append (allDigits_zeros _))
      (by simp [Nat.toDigits_ne_nil]), ofDigits_append_zeros, ofDigits_toDigits, written,
      if_pos whole]
  · rw [text, readUnsigned?_fraction _ all all' nonempty, value, length, written,
      if_neg (by omega), Int.neg_neg]

/-- A digit begins neither a sign nor a word, and it is not blank. -/
theorem digit_facts {c : Char} (digit : c.isDigit = true) :
    c ≠ '-' ∧ c ≠ '+' ∧ c.toLower ≠ 'i' ∧ c.toLower ≠ 'n' ∧ Text.isBlank c = false := by
  have bounds : 48 ≤ c.toNat ∧ c.toNat ≤ 57 := by
    simpa [Char.isDigit, UInt32.le_iff_toNat_le] using digit
  have listed : c = Char.ofNat (48 + (c.toNat - 48)) := by
    rw [show 48 + (c.toNat - 48) = c.toNat by omega, Char.ofNat_toNat]
  have all : ∀ n < 10, Char.ofNat (48 + n) ≠ '-' ∧ Char.ofNat (48 + n) ≠ '+' ∧
      (Char.ofNat (48 + n)).toLower ≠ 'i' ∧ (Char.ofNat (48 + n)).toLower ≠ 'n' ∧
      Text.isBlank (Char.ofNat (48 + n)) = false := by
    decide
  rw [listed]
  exact all (c.toNat - 48) (by omega)

theorem splitSign_digit {c : Char} (digit : c.isDigit = true) (rest : List Char) :
    splitSign (c :: rest) = (false, c :: rest) := by
  obtain ⟨minus, plus, -⟩ := digit_facts digit
  unfold splitSign
  split
  · next same => exact absurd (List.cons.inj same).1 minus
  · next same => exact absurd (List.cons.inj same).1 plus
  · rfl

/-- Reading the plain notation of a decimal gives the decimal as it is written. -/
theorem read?_plain (d : Decimal) : Numeral.read? d.plain = some (.decimal d.written) := by
  obtain ⟨c, rest, text, digit⟩ := exists_digit_body d
  obtain ⟨-, -, notInf, notNan, -⟩ := digit_facts digit
  have noWord : ∀ word : List Char, word.head? = some 'i' ∨ word.head? = some 'n' →
      d.body.map Char.toLower ≠ word := by
    rintro word first rfl
    rw [text, List.map_cons, List.head?_cons, Option.some.injEq, Option.some.injEq] at first
    rcases first with first | first
    · exact notInf first
    · exact notNan first
  have signed : splitSign d.plain = (d.negative, d.body) := by
    rw [plain_eq_body]
    cases d.negative with
    | true => rfl
    | false => rw [if_neg Bool.false_ne_true, text, splitSign_digit digit]
  have noInf := noWord "inf".toList (.inl rfl)
  have noInfinity := noWord "infinity".toList (.inl rfl)
  have noNan := noWord "nan".toList (.inr rfl)
  unfold Numeral.read?
  simp only [signed, noInf, noInfinity, noNan, decide_false, Bool.or_self,
    Bool.false_eq_true, if_false, readUnsigned?_body, Option.map_some]

/-- A text that has no blank at its ends is kept where blanks are dropped. -/
theorem trim_eq_self {s : List Char} (first : ∀ c ∈ s.head?, Text.isBlank c = false)
    (last : ∀ c ∈ s.getLast?, Text.isBlank c = false) : Text.trim s = s := by
  have kept : ∀ {s : List Char}, (∀ c ∈ s.head?, Text.isBlank c = false) →
      s.dropWhile Text.isBlank = s := by
    intro s first
    cases s with
    | nil => rfl
    | cons c rest => rw [List.dropWhile_cons_of_neg (by simp [first c rfl])]
  rw [Text.trim, Text.trimLeft, kept first, Text.trimRight,
    kept (by rw [List.head?_reverse]; exact last), List.reverse_reverse]

/-- There are no blanks around a number in plain notation. -/
theorem trim_plain (d : Decimal) : Text.trim d.plain = d.plain := by
  obtain ⟨c, rest, text, digit⟩ := exists_digit_body d
  obtain ⟨front, c', text', digit'⟩ := exists_digit_body_last d
  rw [plain_eq_body]
  refine trim_eq_self ?_ ?_
  · cases d.negative with
    | true => simp [show Text.isBlank '-' = false by decide]
    | false => simp [text, (digit_facts digit).2.2.2.2]
  · cases d.negative with
    | true =>
        rw [if_pos rfl, text', ← List.cons_append, List.getLast?_concat]
        simp [(digit_facts digit').2.2.2.2]
    | false => simp [text', (digit_facts digit').2.2.2.2]

end SpeedupStudy.Decimal
