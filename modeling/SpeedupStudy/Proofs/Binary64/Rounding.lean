/-
# Rounding to the nearest number

Quotients and sums are first computed to a significand with two residual bits, which tell on which
side of the middle between two significands the exact value lies. Dropping further bits keeps that
meaning, so what is left at the place that the format asks for is rounded like the exact value. A
rounded significand is packed as it is, unless its power of two is too large.
-/

import SpeedupStudy.Proofs.Binary64.Exact

open Float.Model Float.Model.UnpackedFloat

namespace SpeedupStudy.Binary64

/-! ## Residual bits -/

/-- What a significand with residual bits stands for: a quantity less than one above it, which
reaches the middle if the round bit is set and is neither the significand nor the middle if the
sticky bit is. -/
structure Represents (em : ExtendedMantissa) (q : ℚ) : Prop where
  lower : (em.mantissa : ℚ) ≤ q
  upper : q < em.mantissa + 1
  round_iff : em.roundBit = true ↔ em.mantissa + 1 / 2 ≤ q
  sticky_iff : em.stickyBit = true ↔ q ≠ em.mantissa ∧ q ≠ em.mantissa + 1 / 2

theorem represents_exact (m : Nat) : Represents (.ofMantissaAndAccuracy m .exact) m where
  lower := le_refl _
  upper := lt_add_one _
  round_iff := by simp [ExtendedMantissa.ofMantissaAndAccuracy]
  sticky_iff := by simp [ExtendedMantissa.ofMantissaAndAccuracy]

/-- The residual bits that stand for a proper fraction. -/
theorem ofFraction_eq (m : Nat) {num den : Nat} (proper : num < den) :
    ExtendedMantissa.ofMantissaAndAccuracy m (accuracyOfFraction num den) =
      ⟨m, decide (den ≤ 2 * num), decide (num ≠ 0 ∧ 2 * num ≠ den)⟩ := by
  unfold accuracyOfFraction
  by_cases zero : num = 0
  · simp [zero, ExtendedMantissa.ofMantissaAndAccuracy]
    omega
  · rw [if_neg zero]
    cases order : compare (2 * num) den with
    | lt =>
        have less := Nat.compare_eq_lt.mp order
        simp [ExtendedMantissa.ofMantissaAndAccuracy]
        omega
    | eq =>
        have same := Nat.compare_eq_eq.mp order
        simp [ExtendedMantissa.ofMantissaAndAccuracy]
        omega
    | gt =>
        have greater := Nat.compare_eq_gt.mp order
        simp [ExtendedMantissa.ofMantissaAndAccuracy]
        omega

/-- A quotient of whole numbers stands for the exact quotient. -/
theorem represents_fraction (m : Nat) {n : Nat} (positive : 0 < n) :
    Represents (.ofMantissaAndAccuracy (m / n) (accuracyOfFraction (m % n) n)) ((m : ℚ) / n) := by
  have positive' : (0 : ℚ) < n := by exact_mod_cast positive
  have quotient : (m : ℚ) / n = (m / n : Nat) + ((m % n : Nat) : ℚ) / n := by
    have parts : ((m / n : Nat) : ℚ) * n + (m % n : Nat) = m := by
      exact_mod_cast Nat.div_add_mod' m n
    rw [← parts, add_div, mul_div_cancel_right₀ _ positive'.ne']
  have proper := Nat.mod_lt m positive
  rw [quotient, ofFraction_eq _ proper]
  generalize m % n = excess at proper ⊢
  constructor <;> simp only [decide_eq_true_eq]
  · exact le_add_of_nonneg_right (by positivity)
  · have below : (excess : ℚ) / n < 1 := (div_lt_one positive').mpr (by exact_mod_cast proper)
    linarith
  · rw [add_le_add_iff_left, div_le_div_iff₀ two_pos positive', one_mul, mul_comm]
    exact_mod_cast Iff.rfl
  · refine and_congr ?_ ?_
    · rw [ne_eq, ne_eq, add_eq_left, div_eq_zero_iff, Nat.cast_eq_zero]
      simp [positive.ne']
    · rw [ne_eq, ne_eq, add_right_inj, div_eq_div_iff positive'.ne' two_ne_zero, one_mul, mul_comm]
      exact_mod_cast Iff.rfl

variable {em : ExtendedMantissa} {q : ℚ}

theorem Represents.shiftRightOne (represents : Represents em q) :
    Represents em.shiftRightOne (q / 2) := by
  obtain ⟨lower, upper, round_iff, sticky_iff⟩ := represents
  have moved : (em.roundBit || em.stickyBit) = true ↔ q ≠ em.mantissa := by
    rw [Bool.or_eq_true, round_iff, sticky_iff]
    constructor
    · rintro (reached | ⟨other, -⟩)
      · exact (lt_of_lt_of_le (by linarith) reached).ne'
      · exact other
    · intro other
      by_cases middle : q = em.mantissa + 1 / 2
      · exact .inl middle.ge
      · exact .inr ⟨other, middle⟩
  have below : (em.mantissa : ℚ) < em.mantissa + 1 / 2 := by linarith
  obtain ⟨half, even | odd⟩ := Nat.even_or_odd' em.mantissa
  · have value : (em.mantissa : ℚ) = 2 * half := by exact_mod_cast even
    have halved : em.mantissa / 2 = half := by omega
    have last : (em.mantissa % 2 != 0) = false := by simp [even]
    constructor <;> simp only [ExtendedMantissa.shiftRightOne, halved, last, moved]
    · linarith
    · linarith
    · exact iff_of_false (by decide) (by linarith)
    · rw [value]
      exact ⟨fun other => ⟨fun same => other (by linarith), by linarith⟩,
        fun others same => others.1 (by linarith)⟩
  · have value : (em.mantissa : ℚ) = 2 * half + 1 := by exact_mod_cast odd
    have halved : em.mantissa / 2 = half := by omega
    have last : (em.mantissa % 2 != 0) = true := by simp [odd]
    constructor <;> simp only [ExtendedMantissa.shiftRightOne, halved, last, moved]
    · linarith
    · linarith
    · exact iff_of_true trivial (by linarith)
    · rw [value]
      exact ⟨fun other => ⟨by linarith, fun same => other (by linarith)⟩,
        fun others same => others.2 (by linarith)⟩

theorem Represents.shiftRight (represents : Represents em q) (shift : Nat) :
    Represents (em >>> shift) (q / 2 ^ shift) := by
  induction shift with
  | zero =>
      rw [pow_zero, div_one]
      exact represents
  | succ shift ih =>
      have step := ih.shiftRightOne
      rw [div_div, ← pow_succ] at step
      exact step

theorem mantissa_le_roundedMantissa (em : ExtendedMantissa) : em.mantissa ≤ em.roundedMantissa := by
  obtain ⟨m, _ | _, _ | _⟩ := em <;>
    simp [ExtendedMantissa.roundedMantissa, ExtendedMantissa.accuracy, Accuracy.roundToNearestEven]

/-- A significand is rounded up, if at all, from its middle on. -/
theorem Represents.roundedMantissa (represents : Represents em q) :
    em.roundedMantissa = em.mantissa ∨
      em.roundedMantissa = em.mantissa + 1 ∧ em.mantissa + 1 / 2 ≤ q := by
  have round_iff := represents.round_iff
  obtain ⟨m, round, sticky⟩ := em
  cases round with
  | false =>
      left
      cases sticky <;> rfl
  | true =>
      have reached := round_iff.mp rfl
      cases sticky with
      | false =>
          have tie : (ExtendedMantissa.mk m true false).roundedMantissa = m + m % 2 := rfl
          rw [tie]
          rcases Nat.mod_two_eq_zero_or_one m with even | odd
          · exact .inl (by rw [even]; rfl)
          · exact .inr ⟨by rw [odd], reached⟩
      | true => exact .inr ⟨rfl, reached⟩

/-- From its middle on, an odd significand is rounded up: a tie goes to the even one. -/
theorem Represents.roundedMantissa_of_odd (represents : Represents em q) (odd : em.mantissa % 2 = 1)
    (reached : em.mantissa + 1 / 2 ≤ q) : em.roundedMantissa = em.mantissa + 1 := by
  have round := represents.round_iff.mpr reached
  obtain ⟨m, _, sticky⟩ := em
  cases round
  cases sticky with
  | false =>
      have tie : (ExtendedMantissa.mk m true false).roundedMantissa = m + m % 2 := rfl
      rw [tie, odd]
  | true => rfl

/-! ## Shifting to the place that the format asks for -/

theorem mantissa_shiftRight (em : ExtendedMantissa) (shift : Nat) :
    (em >>> shift).mantissa = em.mantissa / 2 ^ shift := by
  induction shift with
  | zero =>
      rw [Nat.pow_zero, Nat.div_one]
      rfl
  | succ shift ih =>
      have step : (em >>> (shift + 1)).mantissa = (em >>> shift).mantissa / 2 := rfl
      rw [step, ih, Nat.div_div_eq_div_mul, Nat.pow_succ]

theorem mantissa_ofMantissaAndAccuracy (m : Nat) (accuracy : Accuracy) :
    (ExtendedMantissa.ofMantissaAndAccuracy m accuracy).mantissa = m := by
  cases accuracy with
  | exact => rfl
  | inexact order => cases order <;> rfl

/-- A significand and a power of two that the format has room for. -/
structure Fits (mantissa : Nat) (power : Int) : Prop where
  small : mantissa < 2 ^ 53
  least : -1074 ≤ power
  wide : 2 ^ 52 ≤ mantissa ∨ power = -1074

/-- Shifting to the place that the format asks for leaves a significand that fits and stands for the
same value, provided there are enough bits. -/
theorem shiftToTargetExponent_represents {m : Nat} {e : Int} {accuracy : Accuracy}
    (enough : e ≤ Format.binary64.targetExponent (totalExponent m e))
    (represents : Represents (.ofMantissaAndAccuracy m accuracy) (q / 2 ^ e)) :
    ∃ em power, shiftToTargetExponent Format.binary64 m e accuracy = (em, power) ∧
      Fits em.mantissa power ∧ Represents em (q / 2 ^ power) := by
  obtain ⟨shift, target⟩ := Int.le.dest enough
  have amount : (Format.binary64.targetExponent (totalExponent m e) - e).toNat = shift := by omega
  refine ⟨ExtendedMantissa.ofMantissaAndAccuracy m accuracy >>> shift, e + shift, ?_, ?_, ?_⟩
  · rw [shiftToTargetExponent, shiftToExponent, amount]
  · have place : e + shift = max ((m.log2 : Int) + 1 + e - 53) (-1074) := target
    rw [mantissa_shiftRight, mantissa_ofMantissaAndAccuracy]
    refine ⟨?_, by omega, ?_⟩
    · rw [Nat.div_lt_iff_lt_mul (Nat.two_pow_pos shift), ← Nat.pow_add]
      exact Nat.lt_of_lt_of_le Nat.lt_log2_self (Nat.pow_le_pow_right (by decide) (by omega))
    · by_cases least : e + shift = -1074
      · exact .inr least
      · have nonzero : m ≠ 0 := by
          rintro rfl
          rw [Nat.log2_zero] at place
          omega
        refine .inl ((Nat.le_div_iff_mul_le (Nat.two_pow_pos shift)).mpr ?_)
        rw [← Nat.pow_add, show 52 + shift = m.log2 by omega]
        exact Nat.log2_self_le nonzero
  · have shifted := represents.shiftRight shift
    rwa [div_div, ← zpow_natCast (2 : ℚ) shift, ← zpow_add₀ two_ne_zero] at shifted

/-- A rounded significand with its power of two. One that is rounded up to a power of two moves
on. -/
def ofRounded (sign : Sign) (mantissa : Nat) (power : Int) : UnpackedFloat :=
  if zero : mantissa = 0 then .zero sign
  else if mantissa = 2 ^ 53 then .finite sign (2 ^ 52) (power + 1) (Nat.two_pow_pos 52)
  else .finite sign mantissa power (Nat.pos_of_ne_zero zero)

/-- A significand below the next power of two stays at its place. -/
theorem shiftToTargetExponent_small {m : Nat} {power : Int} (least : -1074 ≤ power)
    (small : m < 2 ^ 53) :
    shiftToTargetExponent Format.binary64 m power .exact = (⟨m, false, false⟩, power) := by
  have target : Format.binary64.targetExponent (totalExponent m power) =
      max ((m.log2 : Int) + 1 + power - 53) (-1074) := rfl
  have width : m.log2 ≤ 52 := by
    by_cases zero : m = 0
    · rw [zero, Nat.log2_zero]
      omega
    · exact Nat.le_of_lt_succ ((Nat.log2_lt zero).mpr small)
  have amount : (Format.binary64.targetExponent (totalExponent m power) - power).toNat = 0 := by
    omega
  rw [shiftToTargetExponent, shiftToExponent, amount, Int.natCast_zero, Int.add_zero]
  rfl

/-- That power of two itself moves by one place. -/
theorem shiftToTargetExponent_carry {power : Int} (least : -1074 ≤ power) :
    shiftToTargetExponent Format.binary64 (2 ^ 53) power .exact =
      (⟨2 ^ 52, false, false⟩, power + 1) := by
  have target : Format.binary64.targetExponent (totalExponent (2 ^ 53) power) =
      max (((2 ^ 53 : Nat).log2 : Int) + 1 + power - 53) (-1074) := rfl
  have amount : (Format.binary64.targetExponent (totalExponent (2 ^ 53) power) - power).toNat = 1 := by
    rw [target, Nat.log2_two_pow]
    omega
  rw [shiftToTargetExponent, shiftToExponent, amount]
  rfl

/-- Rounding is shifting to the place that the format asks for and rounding there. -/
theorem roundWithAccuracy_eq (sign : Sign) {m : Nat} {e : Int} {accuracy : Accuracy}
    {em : ExtendedMantissa} {power : Int}
    (shifted : shiftToTargetExponent Format.binary64 m e accuracy = (em, power))
    (least : -1074 ≤ power) (most : em.roundedMantissa ≤ 2 ^ 53) :
    roundWithAccuracy Format.binary64 sign m e accuracy = ofRounded sign em.roundedMantissa power := by
  simp only [roundWithAccuracy, shifted]
  by_cases carry : em.roundedMantissa = 2 ^ 53
  · simp only [carry, shiftToTargetExponent_carry least, ofRounded, if_true]
    rfl
  · have small : em.roundedMantissa < 2 ^ 53 := by omega
    simp only [shiftToTargetExponent_small least small, ofRounded, carry, if_false]

/-! ## Packing -/

/-- A significand that fits is packed as it is, unless its power of two is too large. -/
theorem unpack_pack_of_fits (sign : Sign) {mantissa : Nat} {power : Int} (fits : Fits mantissa power)
    (positive : 0 < mantissa) (most : power ≤ 971) :
    (Float.Model.pack (.finite sign mantissa power positive)).unpack =
      .finite sign mantissa power positive := by
  have small := fits.small
  have least := fits.least
  obtain ⟨exponent, fraction, finite, rfl, rfl⟩ : ∃ (exponent : BitVec 11) (fraction : BitVec 52),
      exponent ≠ -1#11 ∧ mantissa = significand exponent.toNat fraction.toNat ∧
        power = Binary64.power exponent.toNat := by
    by_cases hidden : 2 ^ 52 ≤ mantissa
    · have biased : (BitVec.ofNat 11 (power + 1075).toNat).toNat = (power + 1075).toNat := by
        rw [BitVec.toNat_ofNat, Nat.mod_eq_of_lt (by omega)]
      have rest : (BitVec.ofNat 52 (mantissa - 2 ^ 52)).toNat = mantissa - 2 ^ 52 := by
        rw [BitVec.toNat_ofNat, Nat.mod_eq_of_lt (by omega)]
      refine ⟨.ofNat 11 (power + 1075).toNat, .ofNat 52 (mantissa - 2 ^ 52), ?_, ?_, ?_⟩
      · intro special
        rw [special] at biased
        have top : (-1#11).toNat = 2047 := rfl
        omega
      · rw [biased, rest, significand, if_neg (by omega)]
        omega
      · rw [biased, Binary64.power]
        omega
    · have lowest : power = -1074 := fits.wide.resolve_left hidden
      have rest : (BitVec.ofNat 52 mantissa).toNat = mantissa := by
        rw [BitVec.toNat_ofNat, Nat.mod_eq_of_lt (by omega)]
      exact ⟨0#11, .ofNat 52 mantissa, by decide, by rw [rest]; rfl, lowest⟩
  rw [← ofFields_finite sign finite positive, unpack_pack_ofFields sign fraction finite]

/-- Beyond the largest power of two there is only infinity. -/
theorem unpack_pack_of_large (sign : Sign) {mantissa : Nat} {power : Int} (positive : 0 < mantissa)
    (large : 972 ≤ power) :
    (Float.Model.pack (.finite sign mantissa power positive)).unpack = .infinity sign := by
  have packed : UnpackedFloat.pack Format.binary64 (.finite sign mantissa power positive) =
      bits sign (-1#11) 0#52 := by
    have bias : (Format.binary64.exponentBias : Int) = 1023 := rfl
    have width : (Format.binary64.mantissaBitsWithoutImplicit : Int) = 52 := rfl
    unfold UnpackedFloat.pack
    simp only [bias, width]
    rw [if_pos (by omega)]
    rfl
  calc
    (Float.Model.pack (.finite sign mantissa power positive)).unpack
      = UnpackedFloat.unpack Format.binary64
          (UnpackedFloat.pack Format.binary64 (.finite sign mantissa power positive)) := rfl
    _ = .infinity sign := by
      rw [packed, unpack_bits]
      rfl

end SpeedupStudy.Binary64
