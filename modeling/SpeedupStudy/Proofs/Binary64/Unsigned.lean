/-
# Numbers without a minus sign

Counts, cycles and rates carry no minus sign, and neither do their quotients and sums. A sum that
starts at plus zero is then the sum that starts at minus zero, as the two zeros differ only in how
they add to a minus zero. Of any numbers the two sums are the same up to the sign of a zero.
-/

import SpeedupStudy.Proofs.Binary64.Fields

open Float.Model Float.Model.UnpackedFloat

namespace SpeedupStudy.Binary64

/-- Whether an unpacked number is undefined or has the sign plus. -/
def IsUnsigned : UnpackedFloat → Prop
  | .notANumber => True
  | .infinity sign => sign = .positive
  | .zero sign => sign = .positive
  | .finite sign _ _ _ => sign = .positive

/-- A number without a minus sign. -/
def Unsigned (x : Float) : Prop :=
  IsUnsigned x.toModel.unpack

theorem isUnsigned_ofFields (exponent : BitVec 11) (fraction : BitVec 52) :
    IsUnsigned (ofFields .positive exponent fraction) := by
  unfold ofFields
  split
  · split
    · rfl
    · trivial
  · split <;> rfl

/-- Packing keeps a number without a minus sign. -/
theorem exists_bits_of_isUnsigned {u : UnpackedFloat} (unsigned : IsUnsigned u) :
    ∃ exponent fraction,
      UnpackedFloat.pack Format.binary64 u = bits .positive exponent fraction := by
  cases u with
  | notANumber => exact ⟨_, _, rfl⟩
  | infinity sign =>
      cases unsigned
      exact ⟨_, _, rfl⟩
  | zero sign =>
      cases unsigned
      exact ⟨_, _, rfl⟩
  | finite sign mantissa exponent positive =>
      cases unsigned
      unfold UnpackedFloat.pack
      simp only
      split
      · exact ⟨_, _, rfl⟩
      · split
        · exact ⟨_, _, rfl⟩
        · exact ⟨_, _, rfl⟩

theorem unsigned_pack {u : UnpackedFloat} (unsigned : IsUnsigned u) :
    Unsigned (.ofModel (.pack u)) := by
  obtain ⟨exponent, fraction, fields⟩ := exists_bits_of_isUnsigned unsigned
  have unpacked : (Float.Model.pack u).unpack = ofFields .positive exponent fraction := by
    rw [← unpack_bits, ← fields]
    rfl
  rw [Unsigned, unpacked]
  exact isUnsigned_ofFields exponent fraction

theorem isUnsigned_roundWithAccuracy (mantissa : Nat) (exponent : Int) (accuracy : Accuracy) :
    IsUnsigned (roundWithAccuracy Format.binary64 .positive mantissa exponent accuracy) := by
  unfold roundWithAccuracy
  simp only
  split <;> rfl

theorem isUnsigned_normalize {mantissa : Int} (nonnegative : 0 ≤ mantissa) (exponent : Int) :
    IsUnsigned (UnpackedFloat.normalize Format.binary64 mantissa exponent .positive) := by
  unfold UnpackedFloat.normalize
  cases order : compare mantissa 0 with
  | lt =>
      have negative := Int.compare_eq_lt.mp order
      omega
  | eq => rfl
  | gt => exact isUnsigned_roundWithAccuracy _ _ _

theorem unsigned_toFloat (n : UInt64) : Unsigned n.toFloat :=
  unsigned_pack (isUnsigned_normalize (Int.natCast_nonneg _) 0)

theorem isUnsigned_div {u v : UnpackedFloat} (first : IsUnsigned u) (second : IsUnsigned v) :
    IsUnsigned (u.div Format.binary64 v) := by
  cases u with
  | notANumber => trivial
  | infinity sign =>
      cases first
      cases v with
      | notANumber => trivial
      | infinity => trivial
      | zero => cases second; rfl
      | finite => cases second; rfl
  | zero sign =>
      cases first
      cases v with
      | notANumber => trivial
      | infinity => cases second; rfl
      | zero => trivial
      | finite => cases second; rfl
  | finite sign mantissa exponent positive =>
      cases first
      cases v with
      | notANumber => trivial
      | infinity => cases second; rfl
      | zero => cases second; rfl
      | finite => cases second; exact isUnsigned_roundWithAccuracy _ _ _

theorem isUnsigned_add {u v : UnpackedFloat} (first : IsUnsigned u) (second : IsUnsigned v) :
    IsUnsigned (u.add Format.binary64 v) := by
  cases u with
  | notANumber => trivial
  | infinity sign =>
      cases first
      cases v with
      | notANumber => trivial
      | infinity => cases second; rfl
      | zero => rfl
      | finite => rfl
  | zero sign =>
      cases first
      cases v with
      | notANumber => trivial
      | infinity => exact second
      | zero => cases second; rfl
      | finite => exact second
  | finite sign mantissa exponent positive =>
      cases first
      cases v with
      | notANumber => trivial
      | infinity => exact second
      | zero => rfl
      | finite =>
          cases second
          refine isUnsigned_normalize ?_ _
          exact Int.add_nonneg (Int.natCast_nonneg _) (Int.natCast_nonneg _)

/-- A quotient of numbers without a minus sign has none. -/
theorem Unsigned.div {x y : Float} (first : Unsigned x) (second : Unsigned y) : Unsigned (x / y) :=
  unsigned_pack (isUnsigned_div first second)

/-- A sum of numbers without a minus sign has none. -/
theorem Unsigned.add {x y : Float} (first : Unsigned x) (second : Unsigned y) : Unsigned (x + y) :=
  unsigned_pack (isUnsigned_add first second)

theorem unsigned_zero : Unsigned 0.0 := by
  have unpacked : (0.0 : Float).toModel.unpack = .zero .positive := by
    rfl
  rw [Unsigned, unpacked]
  rfl

/-- A positive number has no minus sign. -/
theorem unsigned_of_pos {x : Float} (positive : 0.0 < x) : Unsigned x := by
  have unpacked : (0.0 : Float).toModel.unpack = .zero .positive := by
    rfl
  have compared : (UnpackedFloat.zero .positive).lt x.toModel.unpack = true := by
    rw [← unpacked]
    exact of_decide_eq_true positive
  unfold Unsigned
  cases number : x.toModel.unpack with
  | notANumber => trivial
  | infinity sign => cases sign <;> simp_all [UnpackedFloat.lt, UnpackedFloat.compare, IsUnsigned]
  | zero sign => cases sign <;> simp_all [UnpackedFloat.lt, UnpackedFloat.compare]
  | finite sign => cases sign <;> simp_all [UnpackedFloat.lt, UnpackedFloat.compare, IsUnsigned]

/-- Adding to minus zero changes nothing. -/
theorem negZero_add (x : Float) : -0.0 + x = x := by
  have zero : (-0.0 : Float).toModel.unpack = .zero .negative := by
    rfl
  have same : (UnpackedFloat.zero .negative).add Format.binary64 x.toModel.unpack =
      x.toModel.unpack := by
    cases x.toModel.unpack with
    | zero sign => cases sign <;> rfl
    | _ => rfl
  calc
    -0.0 + x = .ofModel (.pack ((-0.0 : Float).toModel.unpack.add Format.binary64
        x.toModel.unpack)) := rfl
    _ = .ofModel (.pack x.toModel.unpack) := by rw [zero, same]
    _ = x := by rw [pack_unpack]

/-- Adding to plus zero changes nothing unless it is minus zero that is added. -/
theorem zero_add_of_ne {x : Float} (other : x ≠ -0.0) : 0.0 + x = x := by
  have zero : (0.0 : Float).toModel.unpack = .zero .positive := by
    rfl
  have same : (UnpackedFloat.zero .positive).add Format.binary64 x.toModel.unpack =
      x.toModel.unpack := by
    cases number : x.toModel.unpack with
    | zero sign =>
        cases sign with
        | positive => rfl
        | negative =>
            refine absurd ?_ other
            calc
              x = .ofModel (.pack x.toModel.unpack) := by rw [pack_unpack]
              _ = -0.0 := by rw [number]; rfl
    | _ => rfl
  calc
    0.0 + x = .ofModel (.pack ((0.0 : Float).toModel.unpack.add Format.binary64
        x.toModel.unpack)) := rfl
    _ = .ofModel (.pack x.toModel.unpack) := by rw [zero, same]
    _ = x := by rw [pack_unpack]

/-- Adding to plus zero changes no number without a minus sign. -/
theorem zero_add {x : Float} (unsigned : Unsigned x) : 0.0 + x = x := by
  refine zero_add_of_ne fun minus => ?_
  have zero : (-0.0 : Float).toModel.unpack = .zero .negative := by
    rfl
  rw [minus, Unsigned, zero] at unsigned
  cases unsigned

/-- Whether two numbers are the same, where the two zeros are not told apart. An undefined number is
the same as itself only. -/
def SameUpToZero (x y : Float) : Prop :=
  x = y ∨ (x = 0.0 ∨ x = -0.0) ∧ (y = 0.0 ∨ y = -0.0)

theorem SameUpToZero.symm {x y : Float} (same : SameUpToZero x y) : SameUpToZero y x :=
  same.imp Eq.symm And.symm

theorem SameUpToZero.trans {x y z : Float} (first : SameUpToZero x y) (second : SameUpToZero y z) :
    SameUpToZero x z := by
  rcases first with rfl | ⟨zero, zero'⟩
  · exact second
  · rcases second with rfl | ⟨-, zero''⟩
    · exact .inr ⟨zero, zero'⟩
    · exact .inr ⟨zero, zero''⟩

/-- To which zero a number is added makes no difference but to the sign of a zero. -/
theorem SameUpToZero.add {x y : Float} (same : SameUpToZero x y) (z : Float) :
    SameUpToZero (x + z) (y + z) := by
  rcases same with rfl | ⟨first, second⟩
  · exact .inl rfl
  · by_cases minus : z = -0.0
    · have zeros : ∀ {x : Float}, x = 0.0 ∨ x = -0.0 → x + z = 0.0 ∨ x + z = -0.0 := by
        rintro x (rfl | rfl)
        · exact .inl (by rw [minus]; rfl)
        · exact .inr (by rw [minus]; rfl)
      exact .inr ⟨zeros first, zeros second⟩
    · have unchanged : ∀ {x : Float}, x = 0.0 ∨ x = -0.0 → x + z = z := by
        rintro x (rfl | rfl)
        · exact zero_add_of_ne minus
        · exact negZero_add z
      exact .inl ((unchanged first).trans (unchanged second).symm)

/-- A sum may start at either zero, up to the sign of a zero. -/
theorem SameUpToZero.foldl {x y : Float} (same : SameUpToZero x y) (values : List Float) :
    SameUpToZero (values.foldl (· + ·) x) (values.foldl (· + ·) y) := by
  induction values generalizing x y with
  | nil => exact same
  | cons z rest ih => exact ih (same.add z)

end SpeedupStudy.Binary64
