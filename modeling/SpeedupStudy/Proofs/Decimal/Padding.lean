/-
# A zero after the point

A whole number may be written with one zero after its point, which keeps it apart from an integer.
It is then read as ten times the number divided by ten. The division leaves no remainder, and the
zeros that it appends to the significand are dropped again when the result is rounded, so the number
is read as before.
-/

import SpeedupStudy.Proofs.Decimal.RoundTrip

open Float.Model Float.Model.UnpackedFloat

namespace SpeedupStudy

namespace Binary64

/-- Shifting in two steps is shifting at once. -/
theorem shiftRight_add (em : ExtendedMantissa) (first second : Nat) :
    em >>> (first + second) = (em >>> first) >>> second := by
  induction second with
  | zero => rfl
  | succ second ih => exact congrArg ExtendedMantissa.shiftRightOne ih

/-- Zeros that are appended to a significand are dropped again where bits are dropped anyway. -/
theorem shiftToTargetExponent_mul_two_pow {mantissa : Nat} {exponent : Int}
    (positive : 0 < mantissa)
    (below : exponent ≤ Format.binary64.targetExponent (totalExponent mantissa exponent))
    (shift : Nat) :
    shiftToTargetExponent Format.binary64 (mantissa * 2 ^ shift) (exponent - shift) .exact =
      shiftToTargetExponent Format.binary64 mantissa exponent .exact := by
  rw [shiftToTargetExponent, shiftToTargetExponent, totalExponent_mul_two_pow positive]
  generalize Format.binary64.targetExponent (totalExponent mantissa exponent) = target at below
  have places : (target - (exponent - shift)).toNat = shift + (target - exponent).toNat := by omega
  simp only [shiftToExponent, ExtendedMantissa.ofMantissaAndAccuracy, places, shiftRight_add,
    shiftRight_exact]
  congr 1
  omega

theorem roundWithAccuracy_mul_two_pow (sign : Sign) {mantissa : Nat} {exponent : Int}
    (positive : 0 < mantissa)
    (below : exponent ≤ Format.binary64.targetExponent (totalExponent mantissa exponent))
    (shift : Nat) :
    roundWithAccuracy Format.binary64 sign (mantissa * 2 ^ shift) (exponent - shift) .exact =
      roundWithAccuracy Format.binary64 sign mantissa exponent .exact := by
  unfold roundWithAccuracy
  rw [shiftToTargetExponent_mul_two_pow positive below]

/-- A number with enough zeros after its binary point is rounded in one way, however many there
are. -/
theorem roundWithAccuracy_zeros (sign : Sign) {n first second : Nat} (positive : 0 < n)
    (enough : -(first : Int) ≤ Format.binary64.targetExponent (totalExponent n 0))
    (enough' : -(second : Int) ≤ Format.binary64.targetExponent (totalExponent n 0)) :
    roundWithAccuracy Format.binary64 sign (n * 2 ^ first) (-(first : Int)) .exact =
      roundWithAccuracy Format.binary64 sign (n * 2 ^ second) (-(second : Int)) .exact := by
  have widened : ∀ {few many : Nat}, few ≤ many →
      -(few : Int) ≤ Format.binary64.targetExponent (totalExponent n 0) →
      roundWithAccuracy Format.binary64 sign (n * 2 ^ many) (-(many : Int)) .exact =
        roundWithAccuracy Format.binary64 sign (n * 2 ^ few) (-(few : Int)) .exact := by
    intro few many more enough
    obtain ⟨shift, rfl⟩ := Nat.exists_eq_add_of_le more
    have total : totalExponent (n * 2 ^ few) (-(few : Int)) = totalExponent n 0 := by
      rw [← totalExponent_mul_two_pow positive few 0, Int.zero_sub]
    rw [Nat.pow_add, ← Nat.mul_assoc, Int.natCast_add, Int.neg_add, ← Int.sub_eq_add_neg]
    exact roundWithAccuracy_mul_two_pow sign (Nat.mul_pos positive (Nat.two_pow_pos few))
      (total ▸ enough) shift
  rcases Nat.le_total first second with more | more
  · exact (widened more enough).symm
  · exact widened more enough'

/-- Ten times a number divided by ten is rounded like the number. -/
theorem ofScientific_tenth {n : Nat} (positive : 0 < n) :
    UnpackedFloat.ofScientific Format.binary64 (n * 10) (-1) =
      UnpackedFloat.ofScientific Format.binary64 n 0 := by
  have large : (2 : Int) ^ Format.binary64.exponentBits = 2048 := rfl
  let target := min (0 - 0) (Format.binary64.targetExponent
    (totalExponent (n * 10) 0 - totalExponent (10 ^ 1) 0))
  obtain ⟨shift, reached⟩ : ∃ shift : Nat, target = -(shift : Int) :=
    ⟨(-target).toNat, by omega⟩
  have enough : -(shift : Int) ≤ Format.binary64.targetExponent (totalExponent n 0) := by
    have log := log2_mul_le positive (by decide : 0 < 10)
    have ten : Nat.log2 10 = 3 := rfl
    have ten' : Nat.log2 (10 ^ 1) = 3 := rfl
    have bound : Format.binary64.targetExponent
        (totalExponent (n * 10) 0 - totalExponent (10 ^ 1) 0) ≤
          Format.binary64.targetExponent (totalExponent n 0) := by
      unfold Format.targetExponent totalExponent
      omega
    omega
  have enough' : -((53 : Nat) : Int) ≤ Format.binary64.targetExponent (totalExponent n 0) := by
    unfold Format.targetExponent totalExponent
    have least : Format.binary64.minExponent = -1074 := rfl
    have width : (Format.binary64.mantissaBits : Int) = 53 := rfl
    omega
  have amount : (0 - 0 - target).toNat = shift := by omega
  have widened : (n * 10) <<< shift = n * 2 ^ shift * 10 := by
    rw [Nat.shiftLeft_eq]
    ac_rfl
  have quotient : divCore Format.binary64 (n * 10) 0 (10 ^ 1) 0 =
      (n * 2 ^ shift, -(shift : Int), .exact) := by
    have core : divCore Format.binary64 (n * 10) 0 (10 ^ 1) 0 =
        ((n * 10) <<< (0 - 0 - target).toNat / 10, target,
          accuracyOfFraction ((n * 10) <<< (0 - 0 - target).toNat % 10) 10) := rfl
    rw [core, amount, widened, Nat.mul_div_cancel _ (by decide), Nat.mul_mod_left, reached]
    rfl
  unfold UnpackedFloat.ofScientific
  rw [dif_neg (by omega), if_neg (by omega), if_neg (by omega), if_neg (by omega),
    dif_neg (by omega), if_neg (by omega), if_neg (by omega), if_pos (Int.le_refl 0)]
  have exponent : (-(-1 : Int)).toNat = 1 := rfl
  simp only [exponent, UnpackedFloat.div, quotient, UnpackedFloat.mul]
  have whole : n <<< Format.binary64.mantissaBits * 10 ^ (0 : Int).toNat = n * 2 ^ 53 := by
    have bits : Format.binary64.mantissaBits = 53 := rfl
    rw [Nat.shiftLeft_eq, bits, Int.toNat_zero, Nat.pow_zero, Nat.mul_one]
  rw [whole]
  exact roundWithAccuracy_zeros _ positive enough enough'

end Binary64

namespace Decimal

/-- Ten times a number with one decimal place is the number. -/
theorem magnitudeToFloat_tenth (n : Nat) : magnitudeToFloat (n * 10) (-1) = magnitudeToFloat n 0 := by
  rcases Nat.eq_zero_or_pos n with rfl | positive
  · rfl
  · have size : ((Nat.toDigits 10 (n * 10)).length : Int) + -1 = (Nat.toDigits 10 n).length + 0 := by
      have length := length_toDigits_mul positive 1
      rw [Nat.pow_one] at length
      omega
    have nonzero : ¬ n * 10 = 0 := by omega
    have nonzero' : ¬ n = 0 := by omega
    have same : Float.Model.ofScientific (n * 10) (-1) = Float.Model.ofScientific n 0 :=
      congrArg Float.Model.pack (Binary64.ofScientific_tenth positive)
    simp only [magnitudeToFloat, size, nonzero, nonzero', same]

/-- A text that begins with a digit is read as a decimal or not at all. -/
theorem readFloat?_digits {c : Char} {rest : List Char} (digit : c.isDigit = true) :
    readFloat? (c :: rest) = (readUnsigned? false (c :: rest)).map toFloat := by
  obtain ⟨-, -, notInf, notNan, -⟩ := digit_facts digit
  simp [readFloat?, Numeral.read?, splitSign_digit digit, notInf, notNan, Function.comp_def,
    Numeral.toFloat]

/-- Digits around a point are read as a whole number divided by a power of ten. -/
theorem readFloat?_point {whole fraction : List Char} (digits : AllDigits whole)
    (digits' : AllDigits fraction) (nonempty : whole ≠ []) :
    readFloat? (whole ++ '.' :: fraction) =
      some (magnitudeToFloat (ofDigits (whole ++ fraction)) (-(fraction.length : Int))) := by
  obtain ⟨c, rest, text⟩ := List.exists_cons_of_ne_nil nonempty
  have digit : c.isDigit = true := digits c (by simp [text])
  have read := readUnsigned?_fraction false digits digits' nonempty
  rw [text, List.cons_append] at read ⊢
  rw [readFloat?_digits digit, read]
  rfl

end Decimal

end SpeedupStudy
