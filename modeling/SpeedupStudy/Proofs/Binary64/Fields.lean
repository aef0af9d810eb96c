/-
# The fields of a binary64 number

A binary64 number is a sign, an exponent field and a fraction field. Its unpacked form is found from
these fields, and packing that form again gives the number back. A finite number other than zero is
its significand times a power of two, and that significand is the one its magnitude is made of.
-/

import Mathlib
import SpeedupStudy.Decimal.Shortest

open Float.Model Float.Model.UnpackedFloat

namespace SpeedupStudy.Binary64

/-- The significand of a number whose exponent and fraction fields are these. -/
def significand (exponent fraction : Nat) : Nat :=
  if exponent = 0 then fraction else 2 ^ 52 + fraction

/-- The power of two that the significand is multiplied by. -/
def power (exponent : Nat) : Int :=
  (max exponent 1 : Nat) - 1075

/-- The unpacked form of a number with these fields. -/
def ofFields (sign : Sign) (exponent : BitVec 11) (fraction : BitVec 52) : UnpackedFloat :=
  if exponent = -1#11 then if fraction = 0#52 then .infinity sign else .notANumber
  else if zero : significand exponent.toNat fraction.toNat = 0 then .zero sign
  else .finite sign (significand exponent.toNat fraction.toNat) (power exponent.toNat)
    (Nat.pos_of_ne_zero zero)

/-- The bits of a number with these fields. -/
def bits (sign : Sign) (exponent : BitVec 11) (fraction : BitVec 52) :
    BitVec Format.binary64.numBits :=
  packComponents Format.binary64 sign exponent fraction

theorem unpackSign_bits (sign : Sign) (exponent : BitVec 11) (fraction : BitVec 52) :
    Sign.ofBitVec (unpackSign (bits sign exponent fraction)) = sign := by
  simp only [unpackSign, bits, packComponents, BitVec.extractLsb]
  rw [BitVec.extractLsb'_append_eq_of_le (by decide), BitVec.extractLsb'_append_eq_of_le (by decide)]
  cases sign <;> rfl

theorem toBitVec_ofBitVec (b : BitVec 1) : (Sign.ofBitVec b).toBitVec = b := by
  revert b
  decide

/-- All numbers are made of fields. -/
theorem exists_bits (b : BitVec Format.binary64.numBits) :
    ∃ sign exponent fraction, b = bits sign exponent fraction := by
  refine ⟨Sign.ofBitVec (unpackSign b), unpackExponent b, unpackMantissa b, ?_⟩
  simp only [bits, packComponents, toBitVec_ofBitVec, unpackSign, unpackExponent, unpackMantissa,
    BitVec.extractLsb]
  ext i hi
  grind

/-- The unpacked form is the one that the fields determine. -/
theorem unpack_bits (sign : Sign) (exponent : BitVec 11) (fraction : BitVec 52) :
    UnpackedFloat.unpack Format.binary64 (bits sign exponent fraction) =
      ofFields sign exponent fraction := by
  have implicit : (1#1 ++ fraction).toNat = 2 ^ 52 + fraction.toNat := by
    rw [BitVec.toNat_append, ← Nat.shiftLeft_add_eq_or_of_lt fraction.isLt, Nat.shiftLeft_eq]
    rfl
  unfold UnpackedFloat.unpack
  simp only [unpackSign_bits]
  simp only [bits, unpackMantissa_packComponents, unpackExponent_packComponents]
  unfold ofFields
  by_cases special : exponent = -1#11
  · rw [if_pos special, if_pos special]
  · rw [if_neg special, if_neg special]
    by_cases small : exponent = 0#11
    · subst small
      by_cases zero : fraction = 0#52
      · subst zero
        rfl
      · have positive : ¬ fraction.toNat = 0 := fun same => zero (BitVec.eq_of_toNat_eq same)
        have here : significand (0#11).toNat fraction.toNat = fraction.toNat := rfl
        rw [if_pos rfl, dif_neg zero, dif_neg (by rw [here]; exact positive)]
        rfl
    · have large : ¬ exponent.toNat = 0 := fun same => small (BitVec.eq_of_toNat_eq same)
      have here : significand exponent.toNat fraction.toNat = 2 ^ 52 + fraction.toNat :=
        if_neg large
      have place : power exponent.toNat = exponent.toNat - 1075 := by
        unfold power
        omega
      rw [if_neg small, dif_neg (by omega)]
      congr 1
      · rw [implicit, here]
      · rw [place]
        rfl

theorem log2_significand_of_ne_zero {exponent : Nat} (large : exponent ≠ 0)
    (fraction : BitVec 52) : (significand exponent fraction.toNat).log2 = 52 := by
  have here : significand exponent fraction.toNat = 2 ^ 52 + fraction.toNat := if_neg large
  rw [here, Nat.log2_eq_iff (by omega)]
  omega

theorem log2_significand_zero (fraction : BitVec 52) : (significand 0 fraction.toNat).log2 < 52 := by
  have here : significand 0 fraction.toNat = fraction.toNat := rfl
  rw [here]
  by_cases zero : fraction.toNat = 0
  · rw [zero]
    decide
  · exact (Nat.log2_lt zero).mpr fraction.isLt

theorem fields_of_significand_eq_zero {exponent : BitVec 11} {fraction : BitVec 52}
    (zero : significand exponent.toNat fraction.toNat = 0) :
    exponent = 0#11 ∧ fraction = 0#52 := by
  unfold significand at zero
  split at zero
  · next small => exact ⟨BitVec.eq_of_toNat_eq small, BitVec.eq_of_toNat_eq zero⟩
  · omega

/-- Packing a finite number puts its fields back. -/
theorem pack_finite (sign : Sign) {exponent : BitVec 11} (fraction : BitVec 52)
    (finite : exponent ≠ -1#11) (positive : 0 < significand exponent.toNat fraction.toNat) :
    UnpackedFloat.pack Format.binary64
        (.finite sign (significand exponent.toNat fraction.toNat) (power exponent.toNat) positive) =
      bits sign exponent fraction := by
  have below : exponent.toNat + 1 < 2 ^ 11 := by
    have top : exponent.toNat ≠ 2 ^ 11 - 1 := fun same => finite (BitVec.eq_of_toNat_eq same)
    omega
  have biased : (power exponent.toNat + (Format.binary64.exponentBias : Int) +
      (Format.binary64.mantissaBitsWithoutImplicit : Int)).toNat = max exponent.toNat 1 := by
    have bias : (Format.binary64.exponentBias : Int) = 1023 := rfl
    have width : (Format.binary64.mantissaBitsWithoutImplicit : Int) = 52 := rfl
    rw [power, bias, width]
    omega
  have width : Format.binary64.mantissaBits = 53 := rfl
  unfold UnpackedFloat.pack
  simp only [biased, width]
  rw [if_neg (by omega)]
  by_cases small : exponent = 0#11
  · subst small
    have short := log2_significand_zero fraction
    rw [if_neg (by rw [BitVec.toNat_zero]; omega)]
    simp [bits, significand]
  · have large : exponent.toNat ≠ 0 := fun same => small (BitVec.eq_of_toNat_eq same)
    have here : significand exponent.toNat fraction.toNat = 2 ^ 52 + fraction.toNat := if_neg large
    rw [if_pos (by rw [log2_significand_of_ne_zero large fraction])]
    have exponent_eq : BitVec.ofNat 11 (max exponent.toNat 1) = exponent := by
      rw [Nat.max_eq_left (by omega), BitVec.ofNat_toNat]
      simp
    have fraction_eq : BitVec.ofNat 52 (significand exponent.toNat fraction.toNat) = fraction := by
      apply BitVec.eq_of_toNat_eq
      rw [BitVec.toNat_ofNat, here, Nat.add_mod_left, Nat.mod_eq_of_lt fraction.isLt]
    rw [bits, exponent_eq, fraction_eq]

/-- Packing the unpacked form gives the number back, as there is only one undefined number. -/
theorem pack_ofFields {sign : Sign} {exponent : BitVec 11} {fraction : BitVec 52}
    (valid : Format.binary64.Valid (bits sign exponent fraction)) :
    UnpackedFloat.pack Format.binary64 (ofFields sign exponent fraction) =
      bits sign exponent fraction := by
  unfold ofFields
  by_cases special : exponent = -1#11
  · rw [if_pos special]
    by_cases infinite : fraction = 0#52
    · rw [if_pos infinite, special, infinite]
      rfl
    · rw [if_neg infinite]
      refine (valid.eq_packedNaN ?_ ?_).symm
      · rw [bits, unpackExponent_packComponents, special]
      · rw [bits, unpackMantissa_packComponents]
        exact infinite
  · rw [if_neg special]
    split
    · next zero =>
        obtain ⟨rfl, rfl⟩ := fields_of_significand_eq_zero zero
        rfl
    · exact pack_finite sign fraction special _

/-- Numbers with the same bits are equal. -/
theorem model_ext {x y : Float.Model} (same : x.toBits = y.toBits) : x = y := by
  cases x
  cases y
  cases same
  rfl

/-- Packing what a number unpacks to gives the number back. -/
theorem pack_unpack (x : Float.Model) : Float.Model.pack x.unpack = x := by
  obtain ⟨sign, exponent, fraction, fields⟩ := exists_bits x.toBits.toBitVec
  have valid := x.valid
  rw [fields] at valid
  apply model_ext
  apply UInt64.eq_of_toBitVec_eq
  calc
    (Float.Model.pack x.unpack).toBits.toBitVec
      = UnpackedFloat.pack Format.binary64
          (UnpackedFloat.unpack Format.binary64 x.toBits.toBitVec) := rfl
    _ = x.toBits.toBitVec := by rw [fields, unpack_bits, pack_ofFields valid]

theorem ofFields_finite (sign : Sign) {exponent : BitVec 11} {fraction : BitVec 52}
    (finite : exponent ≠ -1#11) (positive : 0 < significand exponent.toNat fraction.toNat) :
    ofFields sign exponent fraction =
      .finite sign (significand exponent.toNat fraction.toNat) (power exponent.toNat) positive := by
  rw [ofFields, if_neg finite, dif_neg (Nat.pos_iff_ne_zero.mp positive)]

/-- A number that is packed from finite fields unpacks to them. -/
theorem unpack_pack_ofFields (sign : Sign) {exponent : BitVec 11} (fraction : BitVec 52)
    (finite : exponent ≠ -1#11) :
    (Float.Model.pack (ofFields sign exponent fraction)).unpack =
      ofFields sign exponent fraction := by
  have valid : Format.binary64.Valid (bits sign exponent fraction) := by
    refine ⟨fun special => absurd ?_ finite⟩
    rwa [bits, unpackExponent_packComponents] at special
  calc
    (Float.Model.pack (ofFields sign exponent fraction)).unpack
      = UnpackedFloat.unpack Format.binary64
          (UnpackedFloat.pack Format.binary64 (ofFields sign exponent fraction)) := rfl
    _ = ofFields sign exponent fraction := by rw [pack_ofFields valid, unpack_bits]

theorem neg_ofFields (sign : Sign) (exponent : BitVec 11) (fraction : BitVec 52) :
    (ofFields sign exponent fraction).neg = ofFields (-sign) exponent fraction := by
  unfold ofFields
  split
  · split <;> rfl
  · split <;> rfl

/-- Negation changes the sign field of a finite number. -/
theorem neg_pack_ofFields (sign : Sign) {exponent : BitVec 11} (fraction : BitVec 52)
    (finite : exponent ≠ -1#11) :
    -Float.ofModel (.pack (ofFields sign exponent fraction)) =
      Float.ofModel (.pack (ofFields (-sign) exponent fraction)) := by
  calc
    -Float.ofModel (.pack (ofFields sign exponent fraction))
      = Float.ofModel (.pack (Float.Model.pack (ofFields sign exponent fraction)).unpack.neg) := rfl
    _ = _ := by rw [unpack_pack_ofFields sign fraction finite, neg_ofFields]

end SpeedupStudy.Binary64
