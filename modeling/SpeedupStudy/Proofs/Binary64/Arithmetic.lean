/-
# Quotients and sums

The quotient of two finite numbers and their sum are rounded from the exact ones, as are counts.
So they are infinite exactly where the exact quotient or sum is too large, and they are never
undefined as long as nothing is divided by zero and no infinite number by another one.
-/

import SpeedupStudy.Proofs.Binary64.Value

open Float.Model Float.Model.UnpackedFloat

namespace SpeedupStudy.Binary64

variable {x y : Float}

theorem overflowBound_pos : 0 < overflowBound := by
  rw [overflowBound_eq]
  exact mul_pos (by norm_num) (zpow_pos two_pos 970)

/-- Every number of at most 53 bits is below the bound unless its last place is too high. -/
theorem mul_pow_lt_overflowBound {n k : Nat} (bits : n ≤ 2 ^ 53) (most : k ≤ 970) :
    (n : ℚ) * 2 ^ k < overflowBound := by
  have bits' : (n : ℚ) ≤ 2 ^ 53 := by exact_mod_cast bits
  have step : (2 : ℚ) ^ k ≤ 2 ^ 970 := pow_le_pow_right₀ one_le_two most
  have same : (2 : ℚ) ^ (970 : Int) = 2 ^ 970 := zpow_natCast 2 970
  rw [overflowBound_eq, same]
  calc
    (n : ℚ) * 2 ^ k ≤ 2 ^ 53 * 2 ^ 970 := mul_le_mul bits' step (pow_pos two_pos k).le (by norm_num)
    _ < (2 ^ 54 - 1) * 2 ^ 970 := mul_lt_mul_of_pos_right (by norm_num) (pow_pos two_pos 970)

theorem overflowBound_le : overflowBound ≤ 2 ^ 1024 :=
  sub_le_self _ (pow_pos two_pos 970).le

theorem rounds_zero (sign : Sign) (packed : x = .ofModel (.pack (.zero sign))) : Rounds 0 x := by
  obtain ⟨nonneg, finite, value_eq⟩ := packed_zero sign packed
  refine ⟨nonneg, iff_of_true finite overflowBound_pos, ?_, ?_⟩
  · exact fun n k bits least finite below => below.trans value_eq.ge
  · exact fun n k bits least finite above => value_eq.le.trans above

/-- A finite number that is not negative is a zero or a significand times a power of two. -/
theorem cases_of_nonneg (nonneg : 0.0 ≤ x) (finite : x.isFinite = true) :
    (∃ sign, x.toModel.unpack = .zero sign ∧ value x = 0) ∨
      ∃ mantissa power positive, x.toModel.unpack = .finite .positive mantissa power positive ∧
        value x = mantissa * (2 : ℚ) ^ power := by
  cases form_of_nonneg nonneg with
  | infinite unpacked => exact absurd unpacked (unpack_ne_infinity finite)
  | zero sign unpacked value_eq => exact .inl ⟨sign, unpacked, value_eq⟩
  | finite mantissa power positive unpacked fits most value_eq =>
      exact .inr ⟨mantissa, power, positive, unpacked, value_eq⟩

theorem nonneg_of_pos (positive : 0.0 < x) : 0.0 ≤ x := by
  rw [pos_iff, UnpackedFloat.lt, beq_iff_eq] at positive
  rw [nonneg_iff, UnpackedFloat.le, positive]
  rfl

theorem exists_of_pos (positive : 0.0 < x) (finite : x.isFinite = true) :
    ∃ mantissa power positive, x.toModel.unpack = .finite .positive mantissa power positive ∧
      value x = mantissa * (2 : ℚ) ^ power := by
  rcases cases_of_nonneg (nonneg_of_pos positive) finite with ⟨sign, unpacked, -⟩ | found
  · rw [pos_iff, unpacked] at positive
    cases positive
  · exact found

theorem value_pos (positive : 0.0 < x) (finite : x.isFinite = true) : 0 < value x := by
  obtain ⟨mantissa, power, positive', -, value_eq⟩ := exists_of_pos positive finite
  rw [value_eq]
  exact mul_pos (Nat.cast_pos.mpr positive') (zpow_pos two_pos power)

/-- A number is positive if its value is or if it is infinite. -/
theorem pos_of_value_pos (nonneg : 0.0 ≤ x) (positive : x.isFinite = true → 0 < value x) :
    0.0 < x := by
  rw [pos_iff]
  cases form_of_nonneg nonneg with
  | infinite unpacked =>
      rw [unpacked]
      rfl
  | zero sign unpacked value_eq =>
      have finite : x.toModel.unpack.isFinite = true := by rw [unpacked]; rfl
      exact absurd (positive finite) (value_eq ▸ lt_irrefl _)
  | finite mantissa power positive unpacked =>
      rw [unpacked]
      rfl

/-- A finite number is rounded from its own value. -/
theorem rounds_self (nonneg : 0.0 ≤ x) (finite : x.isFinite = true) : Rounds (value x) x := by
  refine ⟨nonneg, iff_of_true finite ?_, fun _ _ _ _ _ below => below, fun _ _ _ _ _ above => above⟩
  cases form_of_nonneg nonneg with
  | infinite unpacked => exact absurd unpacked (unpack_ne_infinity finite)
  | zero sign unpacked value_eq =>
      rw [value_eq]
      exact overflowBound_pos
  | finite mantissa power positive unpacked fits most value_eq =>
      have small : (mantissa : ℚ) ≤ (2 ^ 53 - 1 : Nat) := by
        have small := fits.small
        exact_mod_cast Nat.le_sub_one_of_lt small
      have double : (2 : ℚ) ^ (971 : Int) = 2 ^ (970 : Int) * 2 := zpow_add_one₀ two_ne_zero 970
      rw [value_eq, overflowBound_eq]
      calc
        mantissa * (2 : ℚ) ^ power ≤ (2 ^ 53 - 1 : Nat) * 2 ^ (971 : Int) :=
          mul_le_mul small (zpow_le_zpow_right₀ one_le_two most) (zpow_pos two_pos _).le
            (Nat.cast_nonneg _)
        _ = (2 ^ 53 - 1 : Nat) * 2 * 2 ^ (970 : Int) := by rw [double, mul_assoc, mul_comm (2 : ℚ)]
        _ < (2 ^ 54 - 1) * 2 ^ (970 : Int) :=
          mul_lt_mul_of_pos_right (by norm_num) (zpow_pos two_pos _)

/-- A significand times a power of two is rounded. -/
theorem rounds_round {m : Nat} {e : Int} (positive : 0 < m)
    (packed : x = .ofModel (.pack (UnpackedFloat.round Format.binary64 .positive m e))) :
    Rounds (m * (2 : ℚ) ^ e) x := by
  generalize amount :
    (e - Format.binary64.targetExponent (totalExponent m e)).toNat = shift
  have widened : UnpackedFloat.round Format.binary64 .positive m e =
      roundWithAccuracy Format.binary64 .positive (m * 2 ^ shift) (e - shift) .exact := by
    rw [UnpackedFloat.round, decreaseExponent, amount, Nat.shiftLeft_eq]
  rw [widened] at packed
  refine rounds_of_represents ?_ ?_ packed
  · rw [totalExponent_mul_two_pow positive]
    omega
  · have same : (m : ℚ) * 2 ^ e / 2 ^ (e - shift) = (m * 2 ^ shift : Nat) := by
      rw [zpow_sub₀ two_ne_zero, zpow_natCast, Nat.cast_mul, Nat.cast_pow, Nat.cast_ofNat]
      field_simp
    rw [same]
    exact represents_exact _

/-- A signed significand that is positive is rounded, too. -/
theorem rounds_normalize {m : Nat} {e : Int} (positive : 0 < m)
    (packed : x = .ofModel (.pack (normalize Format.binary64 m e .positive))) :
    Rounds (m * (2 : ℚ) ^ e) x := by
  have order : compare (m : Int) 0 = .gt := Int.compare_eq_gt.mpr (by omega)
  refine rounds_round positive (packed.trans ?_)
  rw [UnpackedFloat.normalize.eq_def, order]
  rfl

/-- A count is rounded. -/
theorem rounds_toFloat (n : UInt64) : Rounds n.toNat n.toFloat := by
  have packed : n.toFloat = .ofModel (.pack (normalize Format.binary64 n.toNat 0 .positive)) := rfl
  by_cases zero : n.toNat = 0
  · rw [zero] at packed ⊢
    exact_mod_cast rounds_zero .positive packed
  · have rounds := rounds_normalize (Nat.pos_of_ne_zero zero) packed
    rwa [zpow_zero, mul_one] at rounds

theorem isFinite_toFloat (n : UInt64) : n.toFloat.isFinite = true := by
  have small : (n.toNat : ℚ) < ((1 : Nat) : ℚ) * 2 ^ 64 := by
    rw [Nat.cast_one, one_mul]
    exact_mod_cast n.toNat_lt
  exact (rounds_toFloat n).finite_iff.mpr
    (small.trans (mul_pow_lt_overflowBound (by norm_num) (by norm_num)))

theorem shiftLeft_mul_zpow (m : Nat) {e k : Int} (lower : k ≤ e) :
    ((m <<< (e - k).toNat : Nat) : ℚ) * 2 ^ k = m * 2 ^ e := by
  obtain ⟨shift, rfl⟩ := Int.le.dest lower
  rw [add_sub_cancel_left, Int.toNat_natCast, Nat.shiftLeft_eq, zpow_add₀ two_ne_zero, zpow_natCast]
  push_cast
  ring

/-- A quotient has at most one bit less than the difference of the lengths. -/
theorem log2_le_log2_div {m n : Nat} (positive : 0 < m) (positive' : 0 < n) :
    m.log2 ≤ (m / n).log2 + 1 + n.log2 := by
  have bound : m < 2 ^ ((m / n).log2 + 1 + n.log2 + 1) :=
    calc
      m < (m / n + 1) * n := by
        rw [Nat.mul_comm]
        exact Nat.lt_mul_div_succ m positive'
      _ ≤ 2 ^ ((m / n).log2 + 1) * 2 ^ (n.log2 + 1) :=
        Nat.mul_le_mul Nat.lt_log2_self Nat.lt_log2_self.le
      _ = 2 ^ ((m / n).log2 + 1 + n.log2 + 1) := by rw [← Nat.pow_add, ← Nat.add_assoc]
  exact Nat.le_of_lt_succ ((Nat.log2_lt positive.ne').mpr bound)

/-- The quotient of two positive significands is rounded. -/
theorem rounds_divCore {m n : Nat} {e f : Int} (positive : 0 < m) (positive' : 0 < n)
    (packed : x = .ofModel (.pack (UnpackedFloat.div Format.binary64
      (.finite .positive m e positive) (.finite .positive n f positive')))) :
    Rounds (m * (2 : ℚ) ^ e / (n * 2 ^ f)) x := by
  obtain ⟨target, target_eq⟩ : ∃ target, target = min (e - f)
      (Format.binary64.targetExponent (totalExponent m e - totalExponent n f)) := ⟨_, rfl⟩
  have core : divCore Format.binary64 m e n f = (m <<< (e - f - target).toNat / n, target,
      accuracyOfFraction (m <<< (e - f - target).toNat % n) n) := by
    rw [target_eq]
    rfl
  rw [UnpackedFloat.div, core] at packed
  refine rounds_of_represents ?_ ?_ packed
  · have width : (m <<< (e - f - target).toNat).log2 = m.log2 + (e - f - target).toNat := by
      rw [Nat.shiftLeft_eq, log2_mul_two_pow positive]
    have bits := log2_le_log2_div (Nat.shiftLeft_pos_iff.mpr positive) positive'
      (m := m <<< (e - f - target).toNat)
    unfold Format.targetExponent totalExponent at target_eq ⊢
    omega
  · have same : m * (2 : ℚ) ^ e / (n * 2 ^ f) / 2 ^ target =
        (m <<< (e - f - target).toNat : Nat) / n := by
      have moved := shiftLeft_mul_zpow m (show target ≤ e - f by omega)
      rw [zpow_sub₀ two_ne_zero] at moved
      have here : (2 : ℚ) ^ target ≠ 0 := zpow_ne_zero _ two_ne_zero
      rw [eq_div_of_mul_eq here moved]
      field_simp
    rw [same]
    exact represents_fraction _ positive'

/-- A quotient of finite numbers, of which the second one is positive, is rounded. -/
theorem rounds_div (nonneg : 0.0 ≤ x) (finite : x.isFinite = true) (positive : 0.0 < y)
    (finite' : y.isFinite = true) : Rounds (value x / value y) (x / y) := by
  have packed : x / y =
      .ofModel (.pack (UnpackedFloat.div Format.binary64 x.toModel.unpack y.toModel.unpack)) := rfl
  obtain ⟨n, f, positive', unpacked', value_eq'⟩ := exists_of_pos positive finite'
  rw [unpacked'] at packed
  rcases cases_of_nonneg nonneg finite with
    ⟨sign, unpacked, value_eq⟩ | ⟨m, e, positive, unpacked, value_eq⟩
  · rw [unpacked] at packed
    rw [value_eq, zero_div]
    exact rounds_zero _ packed
  · rw [unpacked] at packed
    rw [value_eq, value_eq']
    exact rounds_divCore positive positive' packed

/-- The sum of two positive significands is rounded. -/
theorem rounds_addCore {m n : Nat} {e f : Int} (positive : 0 < m) (positive' : 0 < n)
    (packed : x = .ofModel (.pack (UnpackedFloat.add Format.binary64
      (.finite .positive m e positive) (.finite .positive n f positive')))) :
    Rounds (m * (2 : ℚ) ^ e + n * 2 ^ f) x := by
  have first := shiftLeft_mul_zpow m (Int.min_le_left e f)
  have second := shiftLeft_mul_zpow n (Int.min_le_right e f)
  have positive'' : 0 < m <<< (e - min e f).toNat + n <<< (f - min e f).toNat :=
    Nat.add_pos_left (Nat.shiftLeft_pos_iff.mpr positive) _
  have rounds := rounds_normalize positive'' packed
  rwa [Nat.cast_add, add_mul, first, second] at rounds

/-- A sum of finite numbers that are not negative is rounded. -/
theorem rounds_add (nonneg : 0.0 ≤ x) (finite : x.isFinite = true) (nonneg' : 0.0 ≤ y)
    (finite' : y.isFinite = true) : Rounds (value x + value y) (x + y) := by
  have packed : x + y =
      .ofModel (.pack (UnpackedFloat.add Format.binary64 x.toModel.unpack y.toModel.unpack)) := rfl
  have keeps : ∀ {z : Float}, x + y = .ofModel (.pack z.toModel.unpack) → x + y = z :=
    fun same => same.trans (congrArg Float.ofModel (pack_unpack _))
  rcases cases_of_nonneg nonneg finite with
    ⟨sign, unpacked, value_eq⟩ | ⟨m, e, positive, unpacked, value_eq⟩
  · rcases cases_of_nonneg nonneg' finite' with
      ⟨sign', unpacked', value_eq'⟩ | ⟨n, f, positive', unpacked', value_eq'⟩
    · rw [unpacked, unpacked'] at packed
      rw [value_eq, value_eq', add_zero]
      cases sign <;> cases sign' <;> exact rounds_zero _ packed
    · have sum : x + y = y := keeps (by rw [packed, unpacked, unpacked']; rfl)
      rw [value_eq, add_comm 0, add_zero, sum]
      exact rounds_self nonneg' finite'
  · rcases cases_of_nonneg nonneg' finite' with
      ⟨sign', unpacked', value_eq'⟩ | ⟨n, f, positive', unpacked', value_eq'⟩
    · have sum : x + y = x := keeps (by rw [packed, unpacked, unpacked']; rfl)
      rw [value_eq', add_zero, sum]
      exact rounds_self nonneg finite
    · rw [unpacked, unpacked'] at packed
      rw [value_eq, value_eq']
      exact rounds_addCore positive positive' packed

/-! ## Infinite results -/

/-- Whether the exact quotient of two finite numbers is too large for a finite number. -/
def QuotientOverflows (x y : Float) : Prop :=
  x.isFinite = true ∧ y.isFinite = true ∧ overflowBound ≤ value x / value y

/-- Whether the exact sum of two finite numbers is too large for a finite number. -/
def SumOverflows (x y : Float) : Prop :=
  x.isFinite = true ∧ y.isFinite = true ∧ overflowBound ≤ value x + value y

theorem Rounds.isFinite_eq_false_iff {q : ℚ} (rounds : Rounds q x) :
    x.isFinite = false ↔ overflowBound ≤ q := by
  rw [← Bool.not_eq_true, rounds.finite_iff, not_lt]

/-- A number that is not negative and not finite is infinite. -/
theorem unpack_of_not_finite (nonneg : 0.0 ≤ x) (infinite : x.isFinite = false) :
    x.toModel.unpack = .infinity .positive := by
  rw [isFinite_eq_unpack] at infinite
  cases form_of_nonneg nonneg with
  | infinite unpacked => exact unpacked
  | zero sign unpacked =>
      rw [unpacked] at infinite
      cases infinite
  | finite mantissa power positive unpacked =>
      rw [unpacked] at infinite
      cases infinite

/-- What is packed from an infinite number is infinite. -/
theorem infinite_of_packed (packed : x = .ofModel (.pack (.infinity .positive))) :
    0.0 ≤ x ∧ x.isFinite = false := by
  subst packed
  exact ⟨by decide +kernel, by decide +kernel⟩

/-- A finite number by an infinite one is zero. -/
theorem rounds_div_infinite (nonneg : 0.0 ≤ x) (finite : x.isFinite = true) (nonneg' : 0.0 ≤ y)
    (infinite : y.isFinite = false) : Rounds 0 (x / y) := by
  have packed : x / y =
      .ofModel (.pack (UnpackedFloat.div Format.binary64 x.toModel.unpack y.toModel.unpack)) := rfl
  rw [unpack_of_not_finite nonneg' infinite] at packed
  -- Whatever the finite number is, a zero is packed.
  rcases cases_of_nonneg nonneg finite with ⟨sign, unpacked, -⟩ | ⟨m, e, positive, unpacked, -⟩ <;>
    exact rounds_zero _ (by rw [packed, unpacked]; rfl)

/-- A quotient by a positive number is not negative and not undefined, provided one of the two
numbers is finite, and it is infinite only where the first number is or the exact quotient is too
large. -/
theorem div_of_pos (nonneg : 0.0 ≤ x) (positive : 0.0 < y)
    (finite : x.isFinite = true ∨ y.isFinite = true) :
    0.0 ≤ x / y ∧ ((x / y).isFinite = false ↔ x.isFinite = false ∨ QuotientOverflows x y) := by
  have packed : x / y =
      .ofModel (.pack (UnpackedFloat.div Format.binary64 x.toModel.unpack y.toModel.unpack)) := rfl
  cases finite_x : x.isFinite with
  | false =>
      have finite_y := finite.resolve_left (by rw [finite_x]; exact Bool.false_ne_true)
      obtain ⟨n, f, positive', unpacked', -⟩ := exists_of_pos positive finite_y
      rw [unpack_of_not_finite nonneg finite_x, unpacked'] at packed
      obtain ⟨nonneg', infinite⟩ := infinite_of_packed packed
      exact ⟨nonneg', iff_of_true infinite (.inl rfl)⟩
  | true =>
      cases finite_y : y.isFinite with
      | false =>
          have zero := rounds_div_infinite nonneg finite_x (nonneg_of_pos positive) finite_y
          have finite_quotient := zero.finite_iff.mpr overflowBound_pos
          exact ⟨zero.nonneg, by simp [QuotientOverflows, finite_quotient, finite_y]⟩
      | true =>
          have rounds := rounds_div nonneg finite_x positive finite_y
          refine ⟨rounds.nonneg, rounds.isFinite_eq_false_iff.trans ?_⟩
          simp [QuotientOverflows, finite_x, finite_y]

/-- A sum of numbers that are not negative is not negative and not undefined, and it is infinite
only where one of them is or the exact sum is too large. -/
theorem add_of_nonneg (nonneg : 0.0 ≤ x) (nonneg' : 0.0 ≤ y) :
    0.0 ≤ x + y ∧
      ((x + y).isFinite = false ↔ x.isFinite = false ∨ y.isFinite = false ∨ SumOverflows x y) := by
  have packed : x + y =
      .ofModel (.pack (UnpackedFloat.add Format.binary64 x.toModel.unpack y.toModel.unpack)) := rfl
  cases finite_x : x.isFinite with
  | false =>
      rw [unpack_of_not_finite nonneg finite_x] at packed
      have infinite : 0.0 ≤ x + y ∧ (x + y).isFinite = false := by
        cases form_of_nonneg nonneg' with
        | infinite unpacked => exact infinite_of_packed (by rw [packed, unpacked]; rfl)
        | zero sign unpacked => exact infinite_of_packed (by rw [packed, unpacked]; rfl)
        | finite m e positive unpacked => exact infinite_of_packed (by rw [packed, unpacked]; rfl)
      exact ⟨infinite.1, iff_of_true infinite.2 (.inl rfl)⟩
  | true =>
      cases finite_y : y.isFinite with
      | false =>
          rw [unpack_of_not_finite nonneg' finite_y] at packed
          have infinite : 0.0 ≤ x + y ∧ (x + y).isFinite = false := by
            rcases cases_of_nonneg nonneg finite_x with
              ⟨sign, unpacked, -⟩ | ⟨m, e, positive, unpacked, -⟩ <;>
              exact infinite_of_packed (by rw [packed, unpacked]; rfl)
          exact ⟨infinite.1, iff_of_true infinite.2 (.inr (.inl rfl))⟩
      | true =>
          have rounds := rounds_add nonneg finite_x nonneg' finite_y
          refine ⟨rounds.nonneg, rounds.isFinite_eq_false_iff.trans ?_⟩
          simp [SumOverflows, finite_x, finite_y]

/-! ## Bounded results -/

/-- Whether a number is finite, not negative and at most a bound. -/
structure AtMost (bound : ℚ) (x : Float) : Prop where
  nonneg : 0.0 ≤ x
  finite : x.isFinite = true
  le : value x ≤ bound

theorem atMost_zero (sign : Sign) (packed : x = .ofModel (.pack (.zero sign))) {bound : ℚ}
    (nonneg : 0 ≤ bound) : AtMost bound x := by
  obtain ⟨nonneg', finite, value_eq⟩ := packed_zero sign packed
  exact ⟨nonneg', finite, value_eq.trans_le nonneg⟩

/-- What is rounded from at most a number of 53 bits is at most that number. -/
theorem Rounds.atMost {q : ℚ} (rounds : Rounds q x) {n k : Nat} (bits : n ≤ 2 ^ 53) (most : k ≤ 970)
    (below : q ≤ n * 2 ^ k) : AtMost (n * 2 ^ k) x := by
  have finite := rounds.finite_iff.mpr (below.trans_lt (mul_pow_lt_overflowBound bits most))
  refine ⟨rounds.nonneg, finite, ?_⟩
  rw [← zpow_natCast] at below ⊢
  exact rounds.upper n k bits (by omega) finite below

/-- What is rounded from at most a power of two is at most that power. -/
theorem Rounds.atMost_pow {q : ℚ} (rounds : Rounds q x) {k : Nat} (most : k ≤ 970)
    (below : q ≤ 2 ^ k) : AtMost (2 ^ k) x := by
  have single : ((1 : Nat) : ℚ) * 2 ^ k = 2 ^ k := by rw [Nat.cast_one, one_mul]
  rw [← single] at below ⊢
  exact rounds.atMost (by norm_num) most below

theorem atMost_toFloat (n : UInt64) : AtMost (2 ^ 64) n.toFloat := by
  refine (rounds_toFloat n).atMost_pow (by norm_num) ?_
  exact_mod_cast n.toNat_lt.le

/-- A quotient by a number that is not tiny is bounded. -/
theorem AtMost.div {i j : Nat} (bounded : AtMost (2 ^ i) x) (positive : 0.0 < y)
    (least : y.isFinite = true → (2 ^ j : ℚ)⁻¹ ≤ value y) (most : i + j ≤ 970) :
    AtMost (2 ^ (i + j)) (x / y) := by
  cases finite : y.isFinite with
  | false =>
      have zero := rounds_div_infinite bounded.nonneg bounded.finite (nonneg_of_pos positive) finite
      exact zero.atMost_pow most (by positivity)
  | true =>
      refine (rounds_div bounded.nonneg bounded.finite positive finite).atMost_pow most ?_
      rw [div_le_iff₀ (value_pos positive finite), pow_add, mul_assoc]
      have cancelled : 1 ≤ 2 ^ j * value y :=
        (inv_le_iff_one_le_mul₀' (by positivity)).mp (least finite)
      exact bounded.le.trans (le_mul_of_one_le_right (by positivity) cancelled)

/-! ## Exact results -/

/-- A finite number other than zero is a significand times a power of two. -/
theorem exists_unpack_finite (finite : x.isFinite = true) (nonzero : (x == 0.0) = false) :
    ∃ sign mantissa power positive, x.toModel.unpack = .finite sign mantissa power positive := by
  have zero : (0.0 : Float).toModel.unpack = .zero .positive := by
    rfl
  have compared : (x == 0.0) = x.toModel.unpack.beq (.zero .positive) := by
    rw [← zero]
    rfl
  rw [isFinite_eq_unpack] at finite
  rw [compared] at nonzero
  cases unpacked : x.toModel.unpack with
  | notANumber =>
      rw [unpacked] at finite
      cases finite
  | infinity sign =>
      rw [unpacked] at finite
      cases finite
  | zero sign =>
      rw [unpacked] at nonzero
      cases sign <;> cases nonzero
  | finite sign mantissa power positive => exact ⟨sign, mantissa, power, positive, rfl⟩

/-- A finite number other than zero divided by itself is one. -/
theorem div_self (finite : x.isFinite = true) (nonzero : (x == 0.0) = false) : x / x = 1.0 := by
  obtain ⟨sign, mantissa, power, positive, unpacked⟩ := exists_unpack_finite finite nonzero
  have quotient : divCore Format.binary64 mantissa power mantissa power = (2 ^ 53, -53, .exact) := by
    have target : min (power - power) (Format.binary64.targetExponent
        (totalExponent mantissa power - totalExponent mantissa power)) = -53 := by
      rw [Int.sub_self, Int.sub_self]
      rfl
    have amount : (power - power - -53).toNat = 53 := by omega
    have whole : mantissa <<< 53 / mantissa = 2 ^ 53 := by
      rw [Nat.shiftLeft_eq, Nat.mul_div_cancel_left _ positive]
    have nothing_left : mantissa <<< 53 % mantissa = 0 := by
      rw [Nat.shiftLeft_eq, Nat.mul_mod_right]
    simp only [divCore, target, amount, whole, nothing_left]
    rfl
  calc
    x / x = .ofModel (.pack (UnpackedFloat.div Format.binary64 x.toModel.unpack
        x.toModel.unpack)) := rfl
    _ = .ofModel (.pack (roundWithAccuracy Format.binary64 (sign / sign) (2 ^ 53) (-53) .exact)) := by
      rw [unpacked, UnpackedFloat.div, quotient]
    _ = 1.0 := by cases sign <;> rfl

/-- Zero divided by a count is zero. -/
theorem zero_div_toFloat {n : UInt64} (counted : 0 < n.toNat) : 0.0 / n.toFloat = 0.0 := by
  have zero : (0.0 : Float).toModel.unpack = .zero .positive := by
    rfl
  have rounds := rounds_toFloat n
  have finite := isFinite_toFloat n
  have positive : 0 < value n.toFloat := by
    have one : ((1 : Nat) : ℚ) * 2 ^ (0 : Int) ≤ n.toNat := by
      rw [zpow_zero, mul_one]
      exact_mod_cast counted
    exact (by norm_num : (0 : ℚ) < ((1 : Nat) : ℚ) * 2 ^ (0 : Int)).trans_le
      (rounds.lower 1 0 (by norm_num) (by norm_num) finite one)
  obtain ⟨mantissa, power, positive', unpacked, -⟩ :=
    exists_of_pos (pos_of_value_pos rounds.nonneg fun _ => positive) finite
  calc
    0.0 / n.toFloat = .ofModel (.pack (UnpackedFloat.div Format.binary64
        (0.0 : Float).toModel.unpack n.toFloat.toModel.unpack)) := rfl
    _ = 0.0 := by
      rw [zero, unpacked]
      rfl

end SpeedupStudy.Binary64
