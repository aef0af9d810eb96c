/-
# The total order refines the numeric one

The bits of a finite number without its sign count the numbers between it and zero, so two of them
are compared like these counts with their signs. The total order counts in the same way, except
that it starts one lower below zero and so tells the two zeros apart.
-/

import SpeedupStudy.Decimal.Order
import SpeedupStudy.Proofs.Decimal.RoundTrip

open Float.Model Float.Model.UnpackedFloat

namespace SpeedupStudy

namespace Binary64

/-- The exponent and fraction fields of a number as one whole number. -/
def rank (exponent : BitVec 11) (fraction : BitVec 52) : Nat :=
  exponent.toNat * 2 ^ 52 + fraction.toNat

/-- The place of a finite number counted from zero. -/
def place (sign : Sign) (exponent : BitVec 11) (fraction : BitVec 52) : Int :=
  sign.apply (rank exponent fraction)

variable {x y : Float} {sign sign' : Sign} {exponent exponent' : BitVec 11}
  {fraction fraction' : BitVec 52}

theorem rank_lt (exponent : BitVec 11) (fraction : BitVec 52) : rank exponent fraction < 2 ^ 63 := by
  have small : exponent.toNat < 2 ^ 11 := exponent.isLt
  have small' : fraction.toNat < 2 ^ 52 := fraction.isLt
  unfold rank
  omega

/-- Only zero has rank zero. -/
theorem significand_eq_zero_iff :
    significand exponent.toNat fraction.toNat = 0 ↔ rank exponent fraction = 0 := by
  unfold significand rank
  split <;> omega

theorem rank_lt_of_power_lt (less : power exponent.toNat < power exponent'.toNat) :
    rank exponent fraction < rank exponent' fraction' := by
  have small : fraction.toNat < 2 ^ 52 := fraction.isLt
  unfold power at less
  unfold rank
  omega

theorem significand_lt_iff_of_power_eq (same : power exponent.toNat = power exponent'.toNat)
    (fraction fraction' : BitVec 52) :
    significand exponent.toNat fraction.toNat < significand exponent'.toNat fraction'.toNat ↔
      rank exponent fraction < rank exponent' fraction' := by
  have small : fraction.toNat < 2 ^ 52 := fraction.isLt
  have small' : fraction'.toNat < 2 ^ 52 := fraction'.isLt
  unfold power at same
  unfold significand rank
  split <;> split <;> omega

/-- Numbers are ordered by their powers of two and then by their significands, and that is the
order of their ranks. -/
theorem compare_power_then (exponent exponent' : BitVec 11) (fraction fraction' : BitVec 52) :
    (compare (power exponent.toNat) (power exponent'.toNat)).then
        (compare (significand exponent.toNat fraction.toNat)
          (significand exponent'.toNat fraction'.toNat)) =
      compare (rank exponent fraction) (rank exponent' fraction') := by
  rcases Int.lt_trichotomy (power exponent.toNat) (power exponent'.toNat) with
    less | same | greater
  · rw [Std.compare_eq_lt.mpr less, Std.compare_eq_lt.mpr (rank_lt_of_power_lt less)]
    rfl
  · rw [Std.compare_eq_iff_eq.mpr same, Ordering.eq_then]
    have less := significand_lt_iff_of_power_eq same fraction fraction'
    have greater := significand_lt_iff_of_power_eq same.symm fraction' fraction
    cases order : compare (rank exponent fraction) (rank exponent' fraction') with
    | lt => exact Std.compare_eq_lt.mpr (less.mpr (Std.compare_eq_lt.mp order))
    | gt => exact Std.compare_eq_gt.mpr (greater.mpr (Std.compare_eq_gt.mp order))
    | eq =>
        have equal := Std.compare_eq_iff_eq.mp order
        exact Std.compare_eq_iff_eq.mpr (by omega)
  · rw [Std.compare_eq_gt.mpr greater, Std.compare_eq_gt.mpr (rank_lt_of_power_lt greater)]
    rfl

theorem compare_natCast (m n : Nat) : compare (m : Int) n = compare m n := by
  rcases Nat.lt_trichotomy m n with less | rfl | greater
  · rw [Std.compare_eq_lt.mpr less, Std.compare_eq_lt.mpr (Int.ofNat_lt.mpr less)]
  · rw [Std.ReflOrd.compare_self, Std.ReflOrd.compare_self]
  · rw [Std.compare_eq_gt.mpr greater, Std.compare_eq_gt.mpr (Int.ofNat_lt.mpr greater)]

theorem compare_neg (m n : Int) : compare (-m) (-n) = (compare m n).swap := by
  rcases Int.lt_trichotomy m n with less | rfl | greater
  · rw [Std.compare_eq_lt.mpr less, Std.compare_eq_gt.mpr (Int.neg_lt_neg less)]
    rfl
  · rw [Std.ReflOrd.compare_self, Std.ReflOrd.compare_self]
    rfl
  · rw [Std.compare_eq_gt.mpr greater, Std.compare_eq_lt.mpr (Int.neg_lt_neg greater)]
    rfl

theorem place_eq_zero (sign : Sign) (zero : significand exponent.toNat fraction.toNat = 0) :
    place sign exponent fraction = 0 := by
  rw [place, significand_eq_zero_iff.mp zero]
  cases sign <;> rfl

theorem place_positive (zero : ¬ significand exponent.toNat fraction.toNat = 0) :
    0 < place .positive exponent fraction := by
  have positive := mt significand_eq_zero_iff.mpr zero
  simp only [place, Sign.apply]
  omega

theorem place_negative (exponent : BitVec 11) (fraction : BitVec 52) :
    place .negative exponent fraction = -place .positive exponent fraction :=
  rfl

/-- Finite numbers are compared by their places. -/
theorem compare_ofFields (finite : exponent ≠ -1#11) (finite' : exponent' ≠ -1#11) :
    (ofFields sign exponent fraction).compare (ofFields sign' exponent' fraction') =
      some (compare (place sign exponent fraction) (place sign' exponent' fraction')) := by
  have ranks : compare (place .positive exponent fraction) (place .positive exponent' fraction') =
      compare (rank exponent fraction) (rank exponent' fraction') := by
    simp only [place, Sign.apply, compare_natCast]
  have opposite : compare (place .negative exponent fraction) (place .negative exponent' fraction') =
      (compare (rank exponent fraction) (rank exponent' fraction')).swap := by
    rw [place_negative, place_negative, compare_neg, ranks]
  rw [ofFields, ofFields, if_neg finite, if_neg finite']
  by_cases zero : significand exponent.toNat fraction.toNat = 0
  · rw [dif_pos zero, place_eq_zero sign zero]
    by_cases zero' : significand exponent'.toNat fraction'.toNat = 0
    · rw [dif_pos zero', place_eq_zero sign' zero']
      rfl
    · have positive := place_positive zero'
      rw [dif_neg zero']
      cases sign' with
      | positive => rw [Std.compare_eq_lt.mpr positive]; rfl
      | negative =>
          rw [place_negative, Std.compare_eq_gt.mpr (by omega)]
          rfl
  · have positive := place_positive zero
    rw [dif_neg zero]
    by_cases zero' : significand exponent'.toNat fraction'.toNat = 0
    · rw [dif_pos zero', place_eq_zero sign' zero']
      cases sign with
      | positive => rw [Std.compare_eq_gt.mpr positive]; rfl
      | negative =>
          rw [place_negative, Std.compare_eq_lt.mpr (by omega)]
          rfl
    · have positive' := place_positive zero'
      rw [dif_neg zero']
      cases sign with
      | positive =>
          cases sign' with
          | positive => rw [ranks, ← compare_power_then]; rfl
          | negative =>
              rw [place_negative, Std.compare_eq_gt.mpr (by omega)]
              rfl
      | negative =>
          cases sign' with
          | positive =>
              rw [place_negative, Std.compare_eq_lt.mpr (by omega)]
              rfl
          | negative => rw [opposite, ← compare_power_then]; rfl

/-- The fields of a finite number. -/
theorem ne_of_isFinite (fields : HasFields x sign exponent fraction) (finite : x.isFinite = true) :
    exponent ≠ -1#11 := by
  rintro rfl
  have unpacked : (ofFields sign (-1#11) fraction).isFinite = true := by
    rw [← unpack_of_hasFields fields]
    exact finite
  rw [ofFields, if_pos rfl] at unpacked
  split at unpacked <;> cases unpacked

/-- The total order places a number one lower if its sign bit is set. -/
theorem orderKey_of_hasFields (fields : HasFields x sign exponent fraction) :
    orderKey x = place sign exponent fraction - sign.toBitVec.toNat := by
  have small := rank_lt exponent fraction
  have bits := toNat_of_hasFields fields
  have rest : x.toBits.toNat = sign.toBitVec.toNat * 2 ^ 63 + rank exponent fraction := by
    rw [bits, rank]
    omega
  have width : Nat.pow 2 63 = 2 ^ 63 := rfl
  simp only [orderKey, place, rest, width]
  cases sign with
  | positive =>
      have zero : Sign.positive.toBitVec.toNat = 0 := rfl
      rw [zero, if_pos (by omega)]
      simp [Sign.apply]
  | negative =>
      have one : Sign.negative.toBitVec.toNat = 1 := rfl
      rw [one, if_neg (by omega)]
      simp only [Sign.apply]
      omega

/-- No place is passed by another one where those below zero move down by one. -/
theorem apply_sub_lt_iff {m n : Nat} (apart : sign.apply m ≠ sign'.apply n) :
    sign.apply m - sign.toBitVec.toNat < sign'.apply n - sign'.toBitVec.toNat ↔
      sign.apply m < sign'.apply n := by
  have zero : Sign.positive.toBitVec.toNat = 0 := rfl
  have one : Sign.negative.toBitVec.toNat = 1 := rfl
  cases sign <;> cases sign' <;> simp only [Sign.apply, zero, one] at apart ⊢ <;> omega

theorem lt_iff_unpack : x < y ↔ x.toModel.unpack.lt y.toModel.unpack = true :=
  decide_eq_true_iff

/-- Finite numbers are in numeric order where their places are. -/
theorem lt_iff_place (fields : HasFields x sign exponent fraction)
    (fields' : HasFields y sign' exponent' fraction') (finite : exponent ≠ -1#11)
    (finite' : exponent' ≠ -1#11) :
    x < y ↔ place sign exponent fraction < place sign' exponent' fraction' := by
  rw [lt_iff_unpack, UnpackedFloat.lt, unpack_of_hasFields fields, unpack_of_hasFields fields',
    compare_ofFields finite finite', beq_iff_eq, Option.some.injEq, Std.compare_eq_lt]

/-- Finite numbers of different value are ordered by their values in the total order. -/
theorem compareFloats_of_ne (finite : x.isFinite = true) (finite' : y.isFinite = true)
    (other : (x == y) = false) :
    (x < y ∨ y < x) ∧ (compareFloats x y = .lt ↔ x < y) ∧ (compareFloats x y = .gt ↔ y < x) := by
  obtain ⟨sign, exponent, fraction, fields⟩ := exists_hasFields x
  obtain ⟨sign', exponent', fraction', fields'⟩ := exists_hasFields y
  have special := ne_of_isFinite fields finite
  have special' := ne_of_isFinite fields' finite'
  have apart : place sign exponent fraction ≠ place sign' exponent' fraction' := by
    intro same
    have equal : (x == y) = x.toModel.unpack.beq y.toModel.unpack := rfl
    rw [equal, UnpackedFloat.beq, unpack_of_hasFields fields, unpack_of_hasFields fields',
      compare_ofFields special special', same, Std.ReflOrd.compare_self] at other
    cases other
  rw [compareFloats, Std.compare_eq_lt, Std.compare_eq_gt,
    lt_iff_place fields fields' special special', lt_iff_place fields' fields special' special,
    orderKey_of_hasFields fields, orderKey_of_hasFields fields']
  exact ⟨Int.lt_or_gt_of_ne apart, apply_sub_lt_iff apart, apply_sub_lt_iff (Ne.symm apart)⟩

end Binary64

end SpeedupStudy
