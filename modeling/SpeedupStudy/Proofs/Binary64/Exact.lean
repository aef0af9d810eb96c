/-
# Numbers that need no rounding

A significand and a power of two are canonical when they are as wide as the format asks for. Dropping
bits that are all zero rounds nothing, so whatever has the value of a canonical pair is rounded to
that pair. A power of ten is a power of two and one of five, so the decimal with all digits of a
number denotes exactly this number.
-/

import SpeedupStudy.Proofs.Binary64.Fields

open Float.Model Float.Model.UnpackedFloat

namespace SpeedupStudy.Binary64

/-- A positive significand whose power of two is the one that the format asks for. -/
structure Canonical (significand : Nat) (power : Int) : Prop where
  positive : 0 < significand
  target : Format.binary64.targetExponent (totalExponent significand power) = power

/-- The significand of a finite number other than zero is canonical. -/
theorem canonical_fields {exponent : BitVec 11} {fraction : BitVec 52}
    (positive : 0 < significand exponent.toNat fraction.toNat) :
    Canonical (significand exponent.toNat fraction.toNat) (power exponent.toNat) := by
  refine ⟨positive, ?_⟩
  have least : Format.binary64.minExponent = -1074 := rfl
  have width : (Format.binary64.mantissaBits : Int) = 53 := rfl
  rw [Format.targetExponent, totalExponent, least, width]
  by_cases small : exponent.toNat = 0
  · have short := log2_significand_zero fraction
    rw [small, power]
    omega
  · rw [log2_significand_of_ne_zero small fraction, power]
    omega

/-- Bits that are zero may be dropped. -/
theorem shiftRight_exact (mantissa shift : Nat) :
    (ExtendedMantissa.mk (mantissa * 2 ^ shift) false false) >>> shift =
      ExtendedMantissa.mk mantissa false false := by
  induction shift generalizing mantissa with
  | zero =>
      rw [Nat.pow_zero, Nat.mul_one]
      rfl
  | succ shift ih =>
      have step : (ExtendedMantissa.mk (mantissa * 2 ^ (shift + 1)) false false) >>> (shift + 1) =
          ((ExtendedMantissa.mk (mantissa * 2 * 2 ^ shift) false false) >>> shift).shiftRightOne := by
        rw [Nat.pow_succ, Nat.mul_assoc, Nat.mul_comm 2]
        rfl
      rw [step, ih]
      simp [ExtendedMantissa.shiftRightOne]

theorem log2_mul_two_pow {n : Nat} (positive : 0 < n) (shift : Nat) :
    (n * 2 ^ shift).log2 = n.log2 + shift := by
  induction shift with
  | zero => simp
  | succ shift ih =>
      have positive' : n * 2 ^ shift ≠ 0 := by
        have := Nat.mul_pos positive (Nat.two_pow_pos shift)
        omega
      rw [Nat.pow_succ, ← Nat.mul_assoc, Nat.mul_comm _ 2, Nat.log2_two_mul positive', ih]
      omega

theorem totalExponent_mul_two_pow {mantissa : Nat} (positive : 0 < mantissa) (shift : Nat)
    (exponent : Int) :
    totalExponent (mantissa * 2 ^ shift) (exponent - shift) = totalExponent mantissa exponent := by
  rw [totalExponent, totalExponent, log2_mul_two_pow positive]
  omega

/-- Shifting what has the value of a canonical pair to its place gives the pair. -/
theorem shiftToTargetExponent_exact {mantissa : Nat} {exponent : Int}
    (canonical : Canonical mantissa exponent) (shift : Nat) :
    shiftToTargetExponent Format.binary64 (mantissa * 2 ^ shift) (exponent - shift) .exact =
      (⟨mantissa, false, false⟩, exponent) := by
  have places : (exponent - (exponent - shift)).toNat = shift := by omega
  rw [shiftToTargetExponent, totalExponent_mul_two_pow canonical.positive, canonical.target,
    shiftToExponent, places]
  simp only [ExtendedMantissa.ofMantissaAndAccuracy]
  rw [shiftRight_exact]
  congr 1
  omega

/-- What has the value of a canonical pair is rounded to it. -/
theorem roundWithAccuracy_exact (sign : Sign) {mantissa : Nat} {exponent : Int}
    (canonical : Canonical mantissa exponent) (shift : Nat) :
    roundWithAccuracy Format.binary64 sign (mantissa * 2 ^ shift) (exponent - shift) .exact =
      .finite sign mantissa exponent canonical.positive := by
  have again : shiftToTargetExponent Format.binary64 mantissa exponent .exact =
      (⟨mantissa, false, false⟩, exponent) := by
    have still := shiftToTargetExponent_exact canonical 0
    rwa [Nat.pow_zero, Nat.mul_one, Int.natCast_zero, Int.sub_zero] at still
  have rounded : (ExtendedMantissa.mk mantissa false false).roundedMantissa = mantissa := rfl
  have positive : ¬ mantissa = 0 := Nat.pos_iff_ne_zero.mp canonical.positive
  unfold roundWithAccuracy
  rw [shiftToTargetExponent_exact canonical]
  simp only [rounded, again, dif_neg positive]

/-- The logarithm of a product is at most one more than the sum of the logarithms. -/
theorem log2_mul_le {m n : Nat} (positive : 0 < m) (positive' : 0 < n) :
    (m * n).log2 ≤ m.log2 + n.log2 + 1 := by
  have product : m * n ≠ 0 := Nat.pos_iff_ne_zero.mp (Nat.mul_pos positive positive')
  have bound : m * n < 2 ^ (m.log2 + n.log2 + 2) :=
    calc
      m * n < 2 ^ (m.log2 + 1) * 2 ^ (n.log2 + 1) :=
        Nat.mul_lt_mul'' Nat.lt_log2_self Nat.lt_log2_self
      _ = 2 ^ (m.log2 + n.log2 + 2) := by
        rw [← Nat.pow_add]
        congr 1
        omega
  have := (Nat.log2_lt product).mpr bound
  omega

/-- Dividing a canonical significand times a power of five by the power of ten gives the significand
times the power of two, without rounding. -/
theorem div_exact {mantissa places : Nat} (canonical : Canonical mantissa (-(places : Int)))
    (positive : 0 < mantissa * 5 ^ places) (positive' : 0 < 10 ^ places) :
    UnpackedFloat.div Format.binary64 (.finite .positive (mantissa * 5 ^ places) 0 positive)
        (.finite .positive (10 ^ places) 0 positive') =
      .finite .positive mantissa (-(places : Int)) canonical.positive := by
  have ten : (10 : Nat) ^ places = 5 ^ places * 2 ^ places := by
    rw [← Nat.mul_pow]
  have five : 0 < 5 ^ places := Nat.pow_pos (by decide)
  let target := min (0 - 0) (Format.binary64.targetExponent
    (totalExponent (mantissa * 5 ^ places) 0 - totalExponent (10 ^ places) 0))
  obtain ⟨shift, reached⟩ : ∃ shift : Nat, target = -(places : Int) - shift := by
    have log := log2_mul_le canonical.positive five
    have log' : (10 ^ places).log2 = (5 ^ places).log2 + places := by
      rw [ten, log2_mul_two_pow five]
    have bound : Format.binary64.targetExponent
        (totalExponent (mantissa * 5 ^ places) 0 - totalExponent (10 ^ places) 0) ≤
          Format.binary64.targetExponent (totalExponent mantissa (-(places : Int))) := by
      unfold Format.targetExponent totalExponent
      omega
    rw [canonical.target] at bound
    exact ⟨(-(places : Int) - target).toNat, by omega⟩
  have amount : (0 - 0 - target).toNat = places + shift := by omega
  have widened : (mantissa * 5 ^ places) <<< (places + shift) = mantissa * 2 ^ shift * 10 ^ places := by
    rw [Nat.shiftLeft_eq, ten, Nat.pow_add, Nat.mul_assoc, Nat.mul_assoc mantissa,
      Nat.mul_comm (2 ^ shift), Nat.mul_assoc (5 ^ places)]
  have quotient : divCore Format.binary64 (mantissa * 5 ^ places) 0 (10 ^ places) 0 =
      (mantissa * 2 ^ shift, -(places : Int) - shift, .exact) := by
    have core : divCore Format.binary64 (mantissa * 5 ^ places) 0 (10 ^ places) 0 =
        ((mantissa * 5 ^ places) <<< (0 - 0 - target).toNat / 10 ^ places, target,
          accuracyOfFraction ((mantissa * 5 ^ places) <<< (0 - 0 - target).toNat % 10 ^ places)
            (10 ^ places)) := rfl
    rw [core, amount, widened, Nat.mul_div_cancel _ positive', Nat.mul_mod_left, reached]
    rfl
  rw [UnpackedFloat.div, quotient]
  exact roundWithAccuracy_exact .positive canonical shift

/-- A whole number is read without rounding if it has the value of a canonical pair. -/
theorem ofScientific_whole {mantissa shift : Nat} (canonical : Canonical mantissa shift) :
    UnpackedFloat.ofScientific Format.binary64 (mantissa * 2 ^ shift) 0 =
      .finite .positive mantissa shift canonical.positive := by
  have positive : ¬ mantissa * 2 ^ shift = 0 :=
    Nat.pos_iff_ne_zero.mp (Nat.mul_pos canonical.positive (Nat.two_pow_pos shift))
  have large : (2 : Int) ^ Format.binary64.exponentBits = 2048 := rfl
  unfold UnpackedFloat.ofScientific
  rw [dif_neg positive, if_neg (by decide), if_neg (by omega), if_pos (Int.le_refl 0)]
  have widened : (mantissa * 2 ^ shift) <<< 53 * 10 ^ (0 : Int).toNat =
      mantissa * 2 ^ (shift + 53) := by
    rw [Nat.shiftLeft_eq, Nat.pow_add]
    simp [Nat.mul_assoc]
  have place : -((53 : Nat) : Int) + 0 = (shift : Int) - ((shift + 53 : Nat) : Int) := by omega
  have rounded := roundWithAccuracy_exact .positive canonical (shift + 53)
  rw [← widened, ← place] at rounded
  exact rounded

/-- A decimal fraction is read without rounding if it has the value of a canonical pair. -/
theorem ofScientific_fraction {mantissa places : Nat}
    (canonical : Canonical mantissa (-(places : Int))) (few : 0 < places ∧ places ≤ 1074) :
    UnpackedFloat.ofScientific Format.binary64 (mantissa * 5 ^ places) (-(places : Int)) =
      .finite .positive mantissa (-(places : Int)) canonical.positive := by
  have positive : 0 < mantissa * 5 ^ places :=
    Nat.mul_pos canonical.positive (Nat.pow_pos (by decide))
  have large : (2 : Int) ^ Format.binary64.exponentBits = 2048 := rfl
  unfold UnpackedFloat.ofScientific
  rw [dif_neg (by omega), if_neg (by omega), if_neg (by omega), if_neg (by omega)]
  have exponent : (-(-(places : Int))).toNat = places := by omega
  simp only [exponent]
  exact div_exact canonical positive (Nat.pow_pos (by decide))

end SpeedupStudy.Binary64
