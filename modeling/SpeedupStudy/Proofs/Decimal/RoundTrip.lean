/-
# Numbers are read back

The shortest decimal of a number is searched among candidates, the last of which has all digits and
denotes the number exactly. So the search never fails: the decimal that is written reads back as the
number, be it finite, infinite or undefined, and up to the sign of a zero.
-/

import SpeedupStudy.Proofs.Binary64.Exact
import SpeedupStudy.Proofs.Decimal.Text

open Float.Model Float.Model.UnpackedFloat

namespace SpeedupStudy

namespace Decimal

/-- Multiplying by powers of ten adds as many digits. -/
theorem length_toDigits_mul {n : Nat} (positive : 0 < n) (count : Nat) :
    (Nat.toDigits 10 (n * 10 ^ count)).length = (Nat.toDigits 10 n).length + count := by
  induction count with
  | zero => simp
  | succ count ih =>
      have more : n * 10 ^ (count + 1) = 10 * (n * 10 ^ count) + 0 := by
        rw [Nat.pow_succ]
        ac_rfl
      rw [more, ← Nat.toDigits_append_toDigits (by decide)
        (Nat.mul_pos positive (Nat.pow_pos (by decide))) (by decide), List.length_append, ih]
      rfl

/-- A whole number is the same number with all its digits. -/
theorem ofScientific_mul_pow {digits places : Nat} (positive : 0 < digits)
    (few : places ≤ 2048) :
    Float.Model.ofScientific (digits * 10 ^ places) 0 = Float.Model.ofScientific digits places := by
  have positive' : ¬ digits * 10 ^ places = 0 :=
    Nat.pos_iff_ne_zero.mp (Nat.mul_pos positive (Nat.pow_pos (by decide)))
  have large : (2 : Int) ^ Format.binary64.exponentBits = 2048 := rfl
  have widened : (digits * 10 ^ places) <<< Format.binary64.mantissaBits * 10 ^ (0 : Int).toNat =
      digits <<< Format.binary64.mantissaBits * 10 ^ ((places : Nat) : Int).toNat := by
    rw [Nat.shiftLeft_eq, Nat.shiftLeft_eq, Int.toNat_natCast, Int.toNat_zero, Nat.pow_zero]
    ac_rfl
  unfold Float.Model.ofScientific UnpackedFloat.ofScientific
  rw [dif_neg positive', if_neg (by omega), if_neg (by omega), if_pos (Int.le_refl 0),
    dif_neg (by omega), if_neg (by omega), if_neg (by omega), if_pos (by omega)]
  simp only [UnpackedFloat.mul, widened]

/-- What the notation is read as denotes the same number. -/
theorem toFloat_written (d : Decimal) : d.written.toFloat = d.toFloat := by
  unfold written
  split
  · next whole =>
      have magnitude : magnitudeToFloat (d.digits * 10 ^ d.exponent.toNat) 0 =
          magnitudeToFloat d.digits d.exponent := by
        by_cases zero : d.digits = 0
        · simp [magnitudeToFloat, zero]
        · have positive : 0 < d.digits := Nat.pos_of_ne_zero zero
          have positive' : ¬ d.digits * 10 ^ d.exponent.toNat = 0 :=
            Nat.pos_iff_ne_zero.mp (Nat.mul_pos positive (Nat.pow_pos (by decide)))
          have size : ((Nat.toDigits 10 (d.digits * 10 ^ d.exponent.toNat)).length : Int) + 0 =
              (Nat.toDigits 10 d.digits).length + d.exponent := by
            rw [length_toDigits_mul positive]
            omega
          unfold magnitudeToFloat
          simp only [size, zero, positive']
          split
          · rfl
          · split
            · rfl
            · have exponent : d.exponent = (d.exponent.toNat : Int) := by omega
              have length : 0 < (Nat.toDigits 10 d.digits).length := Nat.length_toDigits_pos
              have few : d.exponent.toNat ≤ 2048 := by omega
              have same := ofScientific_mul_pow positive few
              rw [← exponent] at same
              rw [same]
      rw [toFloat, toFloat, magnitude]
  · rfl

end Decimal

namespace Binary64

/-- The sign, the exponent field and the fraction field of a number. -/
def HasFields (x : Float) (sign : Sign) (exponent : BitVec 11) (fraction : BitVec 52) : Prop :=
  x.toModel.toBits.toBitVec = bits sign exponent fraction

variable {x : Float} {sign : Sign} {exponent : BitVec 11} {fraction : BitVec 52}

theorem exists_hasFields (x : Float) : ∃ sign exponent fraction, HasFields x sign exponent fraction :=
  exists_bits x.toModel.toBits.toBitVec

theorem unpack_of_hasFields (fields : HasFields x sign exponent fraction) :
    x.toModel.unpack = ofFields sign exponent fraction := by
  rw [Float.Model.unpack, fields, unpack_bits]

theorem eq_pack_of_hasFields (fields : HasFields x sign exponent fraction) :
    x = .ofModel (.pack (ofFields sign exponent fraction)) := by
  rw [← unpack_of_hasFields fields, pack_unpack]

theorem toNat_bits (sign : Sign) (exponent : BitVec 11) (fraction : BitVec 52) :
    (bits sign exponent fraction).toNat =
      sign.toBitVec.toNat * 2 ^ 63 + exponent.toNat * 2 ^ 52 + fraction.toNat := by
  have append : ∀ {m n : Nat} (a : BitVec m) (b : BitVec n),
      (a ++ b).toNat = a.toNat * 2 ^ n + b.toNat := by
    intro m n a b
    rw [BitVec.toNat_append, ← Nat.shiftLeft_add_eq_or_of_lt b.isLt, Nat.shiftLeft_eq]
  have parts : (bits sign exponent fraction).toNat =
      (sign.toBitVec ++ exponent ++ fraction).toNat := rfl
  rw [parts, append, append]
  omega

theorem toNat_of_hasFields (fields : HasFields x sign exponent fraction) :
    x.toBits.toNat = sign.toBitVec.toNat * 2 ^ 63 + exponent.toNat * 2 ^ 52 + fraction.toNat := by
  rw [← toNat_bits, ← fields]
  rfl

theorem signBit_of_hasFields (fields : HasFields x sign exponent fraction) :
    signBit x = (sign == .negative) := by
  have small : exponent.toNat < 2 ^ 11 := exponent.isLt
  have small' : fraction.toNat < 2 ^ 52 := fraction.isLt
  rw [signBit, toNat_of_hasFields fields, Nat.pow_eq]
  cases sign with
  | negative =>
      have one : Sign.negative.toBitVec.toNat = 1 := rfl
      rw [one]
      exact decide_eq_true (by omega)
  | positive =>
      have zero : Sign.positive.toBitVec.toNat = 0 := rfl
      rw [zero]
      exact decide_eq_false (by omega)

/-- The magnitude of a number is its significand times the power of two. -/
theorem magnitude_of_hasFields (fields : HasFields x sign exponent fraction) :
    Magnitude.ofFloat x =
      if 0 ≤ power exponent.toNat then
        ⟨significand exponent.toNat fraction.toNat * 2 ^ (power exponent.toNat).toNat, 1⟩
      else ⟨significand exponent.toNat fraction.toNat, 2 ^ (power exponent.toNat).natAbs⟩ := by
  have small : exponent.toNat < 2 ^ 11 := exponent.isLt
  have small' : fraction.toNat < 2 ^ 52 := fraction.isLt
  have rest : x.toBits.toNat % 2 ^ 63 = exponent.toNat * 2 ^ 52 + fraction.toNat := by
    rw [toNat_of_hasFields fields]
    omega
  have high : (exponent.toNat * 2 ^ 52 + fraction.toNat) / 2 ^ 52 = exponent.toNat := by omega
  have low : (exponent.toNat * 2 ^ 52 + fraction.toNat) % 2 ^ 52 = fraction.toNat := by omega
  simp only [Magnitude.ofFloat, Nat.pow_eq, rest, high, low]
  rfl

/-- All digits of a significand times a power of two; the exponent is that power or zero, whichever is
smaller. -/
def allDigits (mantissa : Nat) (power : Int) : Nat :=
  if 0 ≤ power then mantissa * 2 ^ power.toNat else mantissa * 5 ^ power.natAbs

theorem allDigits_pos {mantissa : Nat} (positive : 0 < mantissa) (power : Int) :
    0 < allDigits mantissa power := by
  unfold allDigits
  split
  · exact Nat.mul_pos positive (Nat.two_pow_pos _)
  · exact Nat.mul_pos positive (Nat.pow_pos (by decide))

section Sizes

variable {mantissa : Nat} (places : Nat)

/-- How many digits a significand has times a power of two. -/
theorem length_toDigits_whole (small : mantissa < 2 ^ 53) (most : places ≤ 971) :
    (Nat.toDigits 10 (mantissa * 2 ^ places)).length ≤ 309 := by
  rw [Nat.length_toDigits_le_iff (by decide) (by decide)]
  calc
    mantissa * 2 ^ places < 2 ^ 53 * 2 ^ 971 := Nat.mul_lt_mul_of_lt_of_le small
      (Nat.pow_le_pow_right (by decide) most) (Nat.two_pow_pos 971)
    _ ≤ 10 ^ 309 := by decide +kernel

/-- The digits of a significand divided by a power of two are few above the point. -/
theorem length_toDigits_fraction_le (small : mantissa < 2 ^ 53) :
    (Nat.toDigits 10 (mantissa * 5 ^ places)).length ≤ 16 + places := by
  rw [Nat.length_toDigits_le_iff (by decide) (by omega), Nat.pow_add]
  calc
    mantissa * 5 ^ places < 10 ^ 16 * 5 ^ places :=
      Nat.mul_lt_mul_of_pos_right (Nat.lt_trans small (by decide)) (Nat.pow_pos (by decide))
    _ ≤ 10 ^ 16 * 10 ^ places :=
      Nat.mul_le_mul_left _ (Nat.pow_le_pow_left (by decide) _)

/-- They start early enough below the point. -/
theorem le_length_toDigits_fraction (positive : 0 < mantissa) (most : places ≤ 1074) :
    places ≤ (Nat.toDigits 10 (mantissa * 5 ^ places)).length + 330 := by
  generalize digits_def : mantissa * 5 ^ places = digits
  apply Nat.le_of_not_lt
  intro tooMany
  have length : 0 < (Nat.toDigits 10 digits).length := Nat.length_toDigits_pos
  have bound : digits < 10 ^ (Nat.toDigits 10 digits).length :=
    (Nat.length_toDigits_le_iff (by decide) length).mp (Nat.le_refl _)
  -- With more places the number would be less than the least power of two.
  have chain : 5 ^ places * 10 ^ 331 < 5 ^ places * 2 ^ places :=
    calc
      5 ^ places * 10 ^ 331 ≤ digits * 10 ^ 331 := by
        rw [← digits_def]
        apply Nat.mul_le_mul_right
        exact Nat.le_mul_of_pos_left _ positive
      _ < 10 ^ (Nat.toDigits 10 digits).length * 10 ^ 331 :=
        Nat.mul_lt_mul_of_pos_right bound (Nat.pow_pos (by decide))
      _ = 10 ^ ((Nat.toDigits 10 digits).length + 331) := (Nat.pow_add 10 _ 331).symm
      _ ≤ 10 ^ places := Nat.pow_le_pow_right (by decide) (by omega)
      _ = 5 ^ places * 2 ^ places := by rw [← Nat.mul_pow]
  have short : 2 ^ places ≤ 10 ^ 331 :=
    Nat.le_trans (Nat.pow_le_pow_right (by decide) most) (by decide +kernel)
  exact Nat.not_le_of_lt (Nat.lt_of_mul_lt_mul_left chain) short

end Sizes

/-- The decimal with all digits of a number is neither too small nor too large to be read. -/
theorem size_bounds {mantissa : Nat} {power : Int} (positive : 0 < mantissa)
    (small : mantissa < 2 ^ 53) (least : -1074 ≤ power) (most : power ≤ 971) :
    -330 ≤ ((Nat.toDigits 10 (allDigits mantissa power)).length : Int) + min power 0 ∧
      ((Nat.toDigits 10 (allDigits mantissa power)).length : Int) + min power 0 ≤ 320 := by
  unfold allDigits
  by_cases whole : 0 ≤ power
  · have bound := length_toDigits_whole power.toNat small (by omega)
    rw [if_pos whole]
    omega
  · have upper := length_toDigits_fraction_le power.natAbs small
    have lower := le_length_toDigits_fraction power.natAbs positive (by omega)
    rw [if_neg whole]
    omega

theorem significand_lt (exponent : Nat) (fraction : BitVec 52) :
    significand exponent fraction.toNat < 2 ^ 53 := by
  have small : fraction.toNat < 2 ^ 52 := fraction.isLt
  unfold significand
  split <;> omega

theorem power_bounds {exponent : BitVec 11} (finite : exponent ≠ -1#11) :
    -1074 ≤ power exponent.toNat ∧ power exponent.toNat ≤ 971 := by
  have small : exponent.toNat < 2 ^ 11 := exponent.isLt
  have top : exponent.toNat ≠ 2 ^ 11 - 1 := fun same => finite (BitVec.eq_of_toNat_eq same)
  unfold power
  omega

/-- The decimal with all digits is read without rounding. -/
theorem ofScientific_allDigits {mantissa : Nat} {power : Int} (canonical : Canonical mantissa power)
    (least : -1074 ≤ power) :
    UnpackedFloat.ofScientific Format.binary64 (allDigits mantissa power) (min power 0) =
      .finite .positive mantissa power canonical.positive := by
  by_cases whole : 0 ≤ power
  · obtain ⟨shift, rfl⟩ := Int.eq_ofNat_of_zero_le whole
    rw [allDigits, if_pos whole, Int.min_eq_right whole, Int.toNat_natCast]
    exact ofScientific_whole canonical
  · obtain ⟨places, rfl⟩ : ∃ places : Nat, power = -(places : Int) := ⟨power.natAbs, by omega⟩
    rw [allDigits, if_neg whole, Int.min_eq_left (by omega), Int.natAbs_neg, Int.natAbs_natCast]
    exact ofScientific_fraction canonical (by omega)

/-- All digits of a number and their exponent. -/
theorem exact_of_hasFields (fields : HasFields x sign exponent fraction) :
    (Magnitude.ofFloat x).exact =
      (allDigits (significand exponent.toNat fraction.toNat) (power exponent.toNat),
        min (power exponent.toNat) 0) := by
  rw [magnitude_of_hasFields fields, Magnitude.exact, allDigits]
  by_cases whole : 0 ≤ power exponent.toNat
  · have one : Nat.log2 1 = 0 := rfl
    rw [if_pos whole, if_pos whole, Int.min_eq_right whole]
    simp [one]
  · rw [if_neg whole, if_neg whole, Int.min_eq_left (by omega)]
    simp only [Nat.log2_two_pow]
    congr 1
    omega

/-- A finite number other than zero is read back from all its digits. -/
theorem toFloat_exact (fields : HasFields x sign exponent fraction) (finite : exponent ≠ -1#11)
    (positive : 0 < significand exponent.toNat fraction.toNat) :
    Decimal.toFloat ⟨signBit x, (Magnitude.ofFloat x).exact.1, (Magnitude.ofFloat x).exact.2⟩ = x := by
  have canonical := canonical_fields positive
  obtain ⟨least, most⟩ := power_bounds finite
  obtain ⟨lower, upper⟩ := size_bounds positive (significand_lt _ fraction) least most
  have nonzero : ¬ allDigits (significand exponent.toNat fraction.toNat) (power exponent.toNat) = 0 :=
    Nat.pos_iff_ne_zero.mp (allDigits_pos positive _)
  have magnitude : Decimal.magnitudeToFloat
      (allDigits (significand exponent.toNat fraction.toNat) (power exponent.toNat))
      (min (power exponent.toNat) 0) =
        .ofModel (.pack (ofFields .positive exponent fraction)) := by
    unfold Decimal.magnitudeToFloat
    simp only [nonzero, decide_false, Bool.false_or, decide_eq_true_eq]
    rw [if_neg (by omega), if_neg (by omega), Float.Model.ofScientific,
      ofScientific_allDigits canonical least, ofFields_finite .positive finite positive]
  rw [exact_of_hasFields fields, Decimal.toFloat, signBit_of_hasFields fields]
  simp only [magnitude]
  cases sign with
  | positive => exact (eq_pack_of_hasFields fields).symm
  | negative =>
      rw [if_pos (by rfl), neg_pack_ofFields .positive fraction finite]
      exact (eq_pack_of_hasFields fields).symm

/-- Numbers with the same bits are equal. -/
theorem eq_of_toBits {x y : Float} (same : (x.toBits == y.toBits) = true) : x = y := by
  have model : x.toModel = y.toModel := model_ext (eq_of_beq same)
  cases x
  cases y
  cases model
  rfl

/-- A finite number is zero in comparisons exactly if its significand is zero. -/
theorem beq_zero_iff (fields : HasFields x sign exponent fraction) (finite : exponent ≠ -1#11) :
    (x == 0.0) = true ↔ significand exponent.toNat fraction.toNat = 0 := by
  have compared : (x == 0.0) = ((ofFields sign exponent fraction).compare (.zero .positive) ==
      some .eq) := by
    have zero : (0.0 : Float).toModel.unpack = .zero .positive := by
      rfl
    rw [← unpack_of_hasFields fields, ← zero]
    rfl
  rw [compared, ofFields, if_neg finite]
  by_cases zero : significand exponent.toNat fraction.toNat = 0
  · rw [dif_pos zero]
    exact iff_of_true rfl zero
  · rw [dif_neg zero]
    refine iff_of_false ?_ zero
    cases sign <;> simp [UnpackedFloat.compare]

/-- A finite number is read back from its shortest decimal. -/
theorem toFloat_shortest (fields : HasFields x sign exponent fraction) (finite : exponent ≠ -1#11) :
    (Decimal.shortest x).toFloat = x := by
  unfold Decimal.shortest
  by_cases zero : (x == 0.0) = true
  · obtain ⟨rfl, rfl⟩ := fields_of_significand_eq_zero ((beq_zero_iff fields finite).mp zero)
    rw [if_pos zero, signBit_of_hasFields fields]
    refine Eq.trans ?_ (eq_pack_of_hasFields fields).symm
    cases sign <;> rfl
  · have positive : 0 < significand exponent.toNat fraction.toNat :=
      Nat.pos_of_ne_zero fun none => zero ((beq_zero_iff fields finite).mpr none)
    rw [if_neg zero]
    cases found : (Decimal.candidates x).find? fun d => d.toFloat.toBits == x.toBits with
    | some d =>
        have matched : (d.toFloat.toBits == x.toBits) = true :=
          List.find?_some (p := fun d : Decimal => d.toFloat.toBits == x.toBits) found
        simp only [found, Option.getD_some]
        exact eq_of_toBits matched
    | none =>
        have last : (Decimal.candidates x).getLastD ⟨signBit x, 0, 0⟩ =
            ⟨signBit x, (Magnitude.ofFloat x).exact.1, (Magnitude.ofFloat x).exact.2⟩ := by
          simp [Decimal.candidates]
        simp only [found, Option.getD_none]
        rw [last]
        exact toFloat_exact fields finite positive

/-- A number is undefined, infinite or finite. -/
theorem number_cases (x : Float) :
    (x.isNaN = true ∧ x = 0.0 / 0.0) ∨
    (x.isNaN = false ∧ x.isInf = true ∧ x = if signBit x then -(1.0 / 0.0) else 1.0 / 0.0) ∨
    (x.isNaN = false ∧ x.isInf = false ∧ (Decimal.shortest x).toFloat = x) := by
  obtain ⟨sign, exponent, fraction, fields⟩ := exists_hasFields x
  have isNaN : x.isNaN = (ofFields sign exponent fraction).isNaN := by
    rw [← unpack_of_hasFields fields]
    rfl
  have isInf : x.isInf = (ofFields sign exponent fraction).isInf := by
    rw [← unpack_of_hasFields fields]
    rfl
  have number := eq_pack_of_hasFields fields
  rw [isNaN, isInf]
  by_cases special : exponent = -1#11
  · by_cases infinite : fraction = 0#52
    · have unpacked : ofFields sign exponent fraction = .infinity sign := by
        rw [ofFields, if_pos special, if_pos infinite]
      rw [unpacked] at number ⊢
      refine .inr (.inl ⟨rfl, rfl, ?_⟩)
      rw [signBit_of_hasFields fields]
      refine number.trans ?_
      cases sign <;> rfl
    · have unpacked : ofFields sign exponent fraction = .notANumber := by
        rw [ofFields, if_pos special, if_neg infinite]
      rw [unpacked] at number ⊢
      exact .inl ⟨rfl, number⟩
  · refine .inr (.inr ⟨?_, ?_, toFloat_shortest fields special⟩)
    · rw [ofFields, if_neg special]
      split <;> rfl
    · rw [ofFields, if_neg special]
      split <;> rfl

end Binary64

/-- A number is read back from its text. -/
theorem readFloat?_floatText (x : Float) : readFloat? (floatText x) = some x := by
  rcases Binary64.number_cases x with
    ⟨undefined, number⟩ | ⟨defined, infinite, number⟩ | ⟨defined, finite, number⟩
  · rw [floatText, Numeral.ofFloat, if_pos undefined]
    exact congrArg some number.symm
  · rw [floatText, Numeral.ofFloat, if_neg (ne_true_of_eq_false defined), if_pos infinite]
    cases negative : signBit x with
    | true =>
        rw [negative] at number
        exact congrArg some number.symm
    | false =>
        rw [negative] at number
        exact congrArg some number.symm
  · rw [floatText, Numeral.ofFloat, if_neg (ne_true_of_eq_false defined), if_neg (ne_true_of_eq_false finite),
      Numeral.plain, readFloat?, Decimal.read?_plain, Option.map_some, Numeral.toFloat,
      Decimal.toFloat_written, number]

/-- There are no blanks around the text of a number. -/
theorem trim_floatText (x : Float) : Text.trim (floatText x) = floatText x := by
  rw [floatText]
  cases Numeral.ofFloat x with
  | decimal d => exact Decimal.trim_plain d
  | infinity negative => cases negative <;> rfl
  | undefined => rfl

end SpeedupStudy
