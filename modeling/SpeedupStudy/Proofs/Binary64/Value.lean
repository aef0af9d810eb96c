/-
# Values of binary64 numbers

A finite number has an exact value, and a number that is not negative is infinite, a zero or a
significand times a power of two. What is rounded from an exact value is infinite exactly if that
value is at least half a place beyond the largest finite number, and it lies on the same side of
every number of the format as the exact value.
-/

import SpeedupStudy.Proofs.Binary64.Rounding
import SpeedupStudy.Proofs.Decimal.RoundTrip

open Float.Model Float.Model.UnpackedFloat

namespace SpeedupStudy.Binary64

/-- The exact value of a finite number without its sign. -/
def value (x : Float) : ℚ :=
  (Magnitude.ofFloat x).numerator / (Magnitude.ofFloat x).denominator

/-- The least value that is not nearest to a finite number: half a place beyond the largest one. -/
def overflowBound : ℚ :=
  2 ^ 1024 - 2 ^ 970

variable {x : Float} {sign : Sign} {exponent : BitVec 11} {fraction : BitVec 52}
  {em : ExtendedMantissa} {q : ℚ}

theorem value_of_hasFields (fields : HasFields x sign exponent fraction) :
    value x = significand exponent.toNat fraction.toNat * (2 : ℚ) ^ power exponent.toNat := by
  rw [value, magnitude_of_hasFields fields]
  split
  · next whole =>
      obtain ⟨places, same⟩ := Int.eq_ofNat_of_zero_le whole
      rw [same, zpow_natCast]
      simp
  · next fractional =>
      obtain ⟨places, same⟩ := Int.exists_eq_neg_ofNat (Int.le_of_not_le fractional)
      rw [same, zpow_neg, zpow_natCast, Int.natAbs_neg, Int.natAbs_natCast, Nat.cast_pow]
      exact div_eq_mul_inv _ _

/-- The forms of a number without a minus sign, and of either zero. -/
inductive Form (x : Float) : Prop
  | infinite (unpacked : x.toModel.unpack = .infinity .positive)
  | zero (sign : Sign) (unpacked : x.toModel.unpack = .zero sign) (value_eq : value x = 0)
  | finite (mantissa : Nat) (power : Int) (positive : 0 < mantissa)
      (unpacked : x.toModel.unpack = .finite .positive mantissa power positive)
      (fits : Fits mantissa power) (most : power ≤ 971)
      (value_eq : value x = mantissa * (2 : ℚ) ^ power)

theorem nonneg_iff : 0.0 ≤ x ↔ (UnpackedFloat.zero .positive).le x.toModel.unpack = true :=
  decide_eq_true_iff

theorem pos_iff : 0.0 < x ↔ (UnpackedFloat.zero .positive).lt x.toModel.unpack = true :=
  decide_eq_true_iff

theorem isFinite_eq_unpack (x : Float) : x.isFinite = x.toModel.unpack.isFinite :=
  rfl

theorem unpack_ne_infinity (finite : x.isFinite = true) :
    x.toModel.unpack ≠ .infinity .positive := by
  intro unpacked
  rw [isFinite_eq_unpack, unpacked] at finite
  cases finite

/-- The fields of a finite number are a significand that fits. -/
theorem fits_fields (finite : exponent ≠ -1#11) (fraction : BitVec 52) :
    Fits (significand exponent.toNat fraction.toNat) (power exponent.toNat) := by
  refine ⟨significand_lt _ fraction, (power_bounds finite).1, ?_⟩
  unfold significand power
  split
  · exact .inr (by omega)
  · exact .inl (by omega)

theorem form_of_nonneg (nonneg : 0.0 ≤ x) : Form x := by
  obtain ⟨sign, exponent, fraction, fields⟩ := exists_hasFields x
  have unpacked := unpack_of_hasFields fields
  have value_eq := value_of_hasFields fields
  rw [nonneg_iff, unpacked] at nonneg
  unfold ofFields at unpacked nonneg
  by_cases special : exponent = -1#11
  · rw [if_pos special] at unpacked nonneg
    by_cases infinite : fraction = 0#52
    · rw [if_pos infinite] at unpacked nonneg
      cases sign with
      | positive => exact .infinite unpacked
      | negative => cases nonneg
    · rw [if_neg infinite] at nonneg
      cases nonneg
  · rw [if_neg special] at unpacked nonneg
    by_cases zero : significand exponent.toNat fraction.toNat = 0
    · rw [dif_pos zero] at unpacked
      rw [zero, Nat.cast_zero, zero_mul] at value_eq
      exact .zero sign unpacked value_eq
    · rw [dif_neg zero] at unpacked nonneg
      cases sign with
      | positive =>
          exact .finite _ _ _ unpacked (fits_fields special fraction) (power_bounds special).2
            value_eq
      | negative => cases nonneg

theorem nonneg_of_unpack_finite {mantissa : Nat} {power : Int} {positive : 0 < mantissa}
    (unpacked : x.toModel.unpack = .finite .positive mantissa power positive) : 0.0 ≤ x := by
  rw [nonneg_iff, unpacked]
  rfl

theorem value_of_unpack_finite {mantissa : Nat} {power : Int} {positive : 0 < mantissa}
    (unpacked : x.toModel.unpack = .finite .positive mantissa power positive) :
    value x = mantissa * (2 : ℚ) ^ power := by
  cases form_of_nonneg (nonneg_of_unpack_finite unpacked) with
  | infinite unpacked' => cases unpacked.symm.trans unpacked'
  | zero sign unpacked' => cases unpacked.symm.trans unpacked'
  | finite mantissa' power' positive' unpacked' fits most value_eq =>
      cases unpacked.symm.trans unpacked'
      exact value_eq

/-- A number that is packed from a significand that fits has its value, unless that is too large. -/
theorem packed_finite {mantissa : Nat} {power : Int} (fits : Fits mantissa power)
    (positive : 0 < mantissa)
    (packed : x = .ofModel (.pack (.finite .positive mantissa power positive))) :
    0.0 ≤ x ∧ (x.isFinite = true ↔ power ≤ 971) ∧
      (x.isFinite = true → value x = mantissa * (2 : ℚ) ^ power) := by
  by_cases most : power ≤ 971
  · have unpacked : x.toModel.unpack = .finite .positive mantissa power positive := by
      rw [packed]
      exact unpack_pack_of_fits .positive fits positive most
    have finite : x.toModel.unpack.isFinite = true := by rw [unpacked]; rfl
    exact ⟨nonneg_of_unpack_finite unpacked, iff_of_true finite most,
      fun _ => value_of_unpack_finite unpacked⟩
  · have unpacked : x.toModel.unpack = .infinity .positive := by
      rw [packed]
      exact unpack_pack_of_large .positive positive (by omega)
    have infinite : ¬ x.isFinite = true := by
      rw [isFinite_eq_unpack, unpacked]
      exact Bool.false_ne_true
    refine ⟨?_, iff_of_false infinite most, fun finite => absurd finite infinite⟩
    rw [nonneg_iff, unpacked]
    rfl

/-- A number that is packed from a zero is finite and has the value zero. -/
theorem packed_zero (sign : Sign) (packed : x = .ofModel (.pack (.zero sign))) :
    0.0 ≤ x ∧ x.isFinite = true ∧ value x = 0 := by
  subst packed
  cases sign <;> exact ⟨by decide +kernel, by decide +kernel, by decide +kernel⟩

/-- A number that is packed from a rounded significand has its value, unless that is too large. -/
theorem packed_ofRounded {mantissa : Nat} {power : Int} (most : mantissa ≤ 2 ^ 53)
    (least : -1074 ≤ power) (wide : 2 ^ 52 ≤ mantissa ∨ power = -1074)
    (packed : x = .ofModel (.pack (ofRounded .positive mantissa power))) :
    0.0 ≤ x ∧ (x.isFinite = true ↔ ¬ (972 ≤ power ∨ power = 971 ∧ mantissa = 2 ^ 53)) ∧
      (x.isFinite = true → value x = mantissa * (2 : ℚ) ^ power) := by
  unfold ofRounded at packed
  by_cases zero : mantissa = 0
  · rw [dif_pos zero] at packed
    have lowest : power = -1074 := wide.resolve_left (by omega)
    obtain ⟨nonneg, finite, nothing⟩ := packed_zero .positive packed
    refine ⟨nonneg, iff_of_true finite (by omega), fun _ => ?_⟩
    rw [nothing, zero, Nat.cast_zero, zero_mul]
  · rw [dif_neg zero] at packed
    by_cases carry : mantissa = 2 ^ 53
    · rw [if_pos carry] at packed
      obtain ⟨nonneg, finite_iff, value_eq⟩ :=
        packed_finite ⟨by omega, by omega, .inl (Nat.le_refl _)⟩ (Nat.two_pow_pos 52) packed
      refine ⟨nonneg, finite_iff.trans (by omega), fun finite => ?_⟩
      rw [value_eq finite, carry, zpow_add_one₀ two_ne_zero]
      norm_num
      ring
    · rw [if_neg carry] at packed
      obtain ⟨nonneg, finite_iff, value_eq⟩ :=
        packed_finite ⟨by omega, least, wide⟩ (Nat.pos_of_ne_zero zero) packed
      exact ⟨nonneg, finite_iff.trans (by omega), value_eq⟩

/-! ## What a number is rounded from -/

theorem overflowBound_eq : overflowBound = (2 ^ 54 - 1) * (2 : ℚ) ^ (970 : Int) := by
  have split : (2 : ℚ) ^ 1024 = 2 ^ 54 * 2 ^ 970 := by rw [← pow_add]
  have same : (2 : ℚ) ^ (970 : Int) = 2 ^ 970 := zpow_natCast 2 970
  rw [overflowBound, split, same, sub_one_mul]

/-- The largest power of two of a finite number is passed exactly from the bound on. -/
theorem overflows_iff {power : Int} (fits : Fits em.mantissa power)
    (represents : Represents em (q / 2 ^ power)) :
    (972 ≤ power ∨ power = 971 ∧ em.roundedMantissa = 2 ^ 53) ↔ overflowBound ≤ q := by
  have unit : (0 : ℚ) < 2 ^ (970 : Int) := zpow_pos two_pos 970
  have here : (0 : ℚ) < 2 ^ power := zpow_pos two_pos power
  have small := fits.small
  rw [overflowBound_eq]
  rcases Int.lt_trichotomy power 971 with less | same | greater
  · refine iff_of_false (by omega) (not_le.mpr ?_)
    have small' : (em.mantissa : ℚ) + 1 ≤ 2 ^ 53 := by exact_mod_cast small
    have step : (2 : ℚ) ^ power ≤ 2 ^ (970 : Int) := zpow_le_zpow_right₀ one_le_two (by omega)
    calc
      q < (em.mantissa + 1) * (2 : ℚ) ^ power := (div_lt_iff₀ here).mp represents.upper
      _ ≤ 2 ^ 53 * 2 ^ (970 : Int) := mul_le_mul small' step here.le (by positivity)
      _ ≤ (2 ^ 54 - 1) * 2 ^ (970 : Int) := mul_le_mul_of_nonneg_right (by norm_num) unit.le
  · -- Only the largest significand is rounded up to the next power of two, from its middle on.
    subst same
    have double : (2 : ℚ) ^ (971 : Int) = 2 ^ (970 : Int) * 2 := zpow_add_one₀ two_ne_zero 970
    have bound : ∀ unit : ℚ, (2 ^ 53 - 1 + 1 / 2) * (unit * 2) = (2 ^ 54 - 1) * unit :=
      fun unit => by ring
    rw [← bound, ← double, ← le_div_iff₀ here]
    by_cases top : em.mantissa = 2 ^ 53 - 1
    · have value : (em.mantissa : ℚ) = 2 ^ 53 - 1 := by
        rw [top]
        norm_num
      rw [← value]
      constructor
      · rintro (large | ⟨-, up⟩)
        · omega
        · rcases represents.roundedMantissa with down | ⟨-, reached⟩
          · omega
          · exact reached
      · intro reached
        have up := represents.roundedMantissa_of_odd (by omega) reached
        exact .inr ⟨rfl, by omega⟩
    · refine iff_of_false ?_ (not_le.mpr ?_)
      · rcases represents.roundedMantissa with rounded | ⟨rounded, -⟩ <;> omega
      · have below : ((em.mantissa + 1 : Nat) : ℚ) ≤ (2 ^ 53 - 1 : Nat) :=
          Nat.cast_le.mpr (by omega)
        rw [Nat.cast_add_one] at below
        exact represents.upper.trans_le (below.trans (by norm_num))
  · refine iff_of_true (by omega) ?_
    have wide : (2 : ℚ) ^ 52 ≤ em.mantissa := by
      have wide := fits.wide.resolve_right (by omega)
      exact_mod_cast wide
    have next : (2 : ℚ) ^ (972 : Int) = 2 ^ (970 : Int) * 4 := by
      rw [show (972 : Int) = 970 + 2 from rfl, zpow_add₀ two_ne_zero]
      norm_num
    have step : (2 : ℚ) ^ (970 : Int) * 4 ≤ 2 ^ power := by
      rw [← next]
      exact zpow_le_zpow_right₀ one_le_two (by omega)
    calc
      (2 ^ 54 - 1) * (2 : ℚ) ^ (970 : Int) ≤ 2 ^ 54 * 2 ^ (970 : Int) :=
        mul_le_mul_of_nonneg_right (by norm_num) unit.le
      _ = 2 ^ 52 * (2 ^ (970 : Int) * 4) := by
        generalize (2 : ℚ) ^ (970 : Int) = unit
        ring
      _ ≤ em.mantissa * 2 ^ power :=
        mul_le_mul wide step (mul_nonneg unit.le four_pos.le) (Nat.cast_nonneg _)
      _ ≤ q := (le_div_iff₀ here).mp represents.lower

/-- What a number has of the exact value that it is rounded from: it is infinite exactly from the
bound on, and otherwise it lies on the same side of each number of at most 53 bits. -/
structure Rounds (q : ℚ) (x : Float) : Prop where
  nonneg : 0.0 ≤ x
  finite_iff : x.isFinite = true ↔ q < overflowBound
  lower : ∀ (n : Nat) (k : Int), n ≤ 2 ^ 53 → -1074 ≤ k → x.isFinite = true →
    n * (2 : ℚ) ^ k ≤ q → n * (2 : ℚ) ^ k ≤ value x
  upper : ∀ (n : Nat) (k : Int), n ≤ 2 ^ 53 → -1074 ≤ k → x.isFinite = true →
    q ≤ n * (2 : ℚ) ^ k → value x ≤ n * (2 : ℚ) ^ k

/-- A number of few bits is at most a significand of all bits at a higher place. -/
theorem mul_zpow_le {m n : Nat} {k power : Int} (bits : n ≤ 2 ^ 53) (wide : 2 ^ 52 ≤ m)
    (higher : k < power) : n * (2 : ℚ) ^ k ≤ m * 2 ^ power :=
  calc
    n * (2 : ℚ) ^ k ≤ 2 ^ 53 * 2 ^ k :=
      mul_le_mul_of_nonneg_right (by exact_mod_cast bits) (zpow_pos two_pos k).le
    _ = 2 ^ 52 * 2 ^ (k + 1) := by
      rw [zpow_add_one₀ two_ne_zero]
      ring
    _ ≤ m * 2 ^ power := by
      refine mul_le_mul ?_ (zpow_le_zpow_right₀ one_le_two (by omega)) (zpow_pos two_pos _).le
        (Nat.cast_nonneg _)
      exact_mod_cast wide

section Sides

variable {power k : Int} {n : Nat} (fits : Fits em.mantissa power)
  (represents : Represents em (q / 2 ^ power)) (bits : n ≤ 2 ^ 53) (least : -1074 ≤ k)

include fits represents bits least

theorem le_roundedMantissa (below : n * (2 : ℚ) ^ k ≤ q) :
    n * (2 : ℚ) ^ k ≤ em.roundedMantissa * 2 ^ power := by
  have here : (0 : ℚ) < 2 ^ power := zpow_pos two_pos power
  have grows := mantissa_le_roundedMantissa em
  by_cases order : power ≤ k
  · obtain ⟨shift, rfl⟩ := Int.le.dest order
    rw [add_comm power, zpow_add₀ two_ne_zero, zpow_natCast, ← mul_assoc] at below ⊢
    have whole : ((n * 2 ^ shift : Nat) : ℚ) < (em.mantissa + 1 : Nat) := by
      push_cast
      exact ((le_div_iff₀ here).mpr below).trans_lt represents.upper
    have counted : n * 2 ^ shift ≤ em.roundedMantissa := by
      have less := Nat.cast_lt.mp whole
      omega
    exact mul_le_mul_of_nonneg_right (by exact_mod_cast counted) here.le
  · have wide := fits.wide.resolve_right (by omega)
    exact mul_zpow_le bits (wide.trans grows) (by omega)

theorem roundedMantissa_le (above : q ≤ n * (2 : ℚ) ^ k) :
    em.roundedMantissa * (2 : ℚ) ^ power ≤ n * 2 ^ k := by
  have here : (0 : ℚ) < 2 ^ power := zpow_pos two_pos power
  by_cases order : power ≤ k
  · obtain ⟨shift, rfl⟩ := Int.le.dest order
    rw [add_comm power, zpow_add₀ two_ne_zero, zpow_natCast, ← mul_assoc] at above ⊢
    have whole : q / 2 ^ power ≤ (n * 2 ^ shift : Nat) := by
      push_cast
      exact (div_le_iff₀ here).mpr above
    have counted : em.roundedMantissa ≤ n * 2 ^ shift := by
      rcases represents.roundedMantissa with rounded | ⟨rounded, reached⟩
      · rw [rounded]
        exact_mod_cast represents.lower.trans whole
      · have less : (em.mantissa : ℚ) < (n * 2 ^ shift : Nat) :=
          (lt_add_of_pos_right _ one_half_pos).trans_le (reached.trans whole)
        have less' := Nat.cast_lt.mp less
        omega
    exact mul_le_mul_of_nonneg_right (by exact_mod_cast counted) here.le
  · -- A bound of fewer bits than the significand is its least power of two, so nothing is rounded.
    have wide := fits.wide.resolve_right (by omega)
    have bound : q / 2 ^ power ≤ em.mantissa :=
      (div_le_iff₀ here).mpr (above.trans (mul_zpow_le bits wide (by omega)))
    rcases represents.roundedMantissa with rounded | ⟨-, reached⟩
    · rw [rounded]
      exact ((le_div_iff₀ here).mp represents.lower).trans above
    · exact absurd (reached.trans bound) (not_le.mpr (lt_add_of_pos_right _ one_half_pos))

end Sides

/-- Rounding with enough bits rounds the exact value. -/
theorem rounds_of_represents {m : Nat} {e : Int} {accuracy : Accuracy}
    (enough : e ≤ Format.binary64.targetExponent (totalExponent m e))
    (represents : Represents (.ofMantissaAndAccuracy m accuracy) (q / 2 ^ e))
    (packed : x = .ofModel (.pack (roundWithAccuracy Format.binary64 .positive m e accuracy))) :
    Rounds q x := by
  obtain ⟨em, power, shifted, fits, represents⟩ := shiftToTargetExponent_represents enough represents
  have grows := mantissa_le_roundedMantissa em
  have most : em.roundedMantissa ≤ 2 ^ 53 := by
    have small := fits.small
    rcases represents.roundedMantissa with rounded | ⟨rounded, -⟩ <;> omega
  rw [roundWithAccuracy_eq .positive shifted fits.least most] at packed
  obtain ⟨nonneg, finite_iff, value_eq⟩ :=
    packed_ofRounded most fits.least (fits.wide.imp_left fun wide => wide.trans grows) packed
  refine ⟨nonneg, ?_, ?_, ?_⟩
  · rw [finite_iff, overflows_iff fits represents, not_le]
  · intro n k bits least finite below
    rw [value_eq finite]
    exact le_roundedMantissa fits represents bits least below
  · intro n k bits least finite above
    rw [value_eq finite]
    exact roundedMantissa_le fits represents bits least above

end SpeedupStudy.Binary64
