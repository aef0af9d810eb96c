/-
# Methods that cost nothing

A method that leaves the speedup of every run at that of the baseline has the normalized value one
everywhere, exactly: a finite number divided by itself is one without rounding, and so is the mean
of ones, by way of the logarithms or not. Of the logarithm and the exponential function nothing is
used but what they are at one and at zero, so both are left open here.
-/

import SpeedupStudy.Proofs.Binary64.Arithmetic
import SpeedupStudy.Proofs.Normalization
import SpeedupStudy.Proofs.Speedup

namespace SpeedupStudy

open Binary64

/-- The mean of ones is one. -/
theorem geometricMeanBy_ones {log exp : Float → Float} (logOne : log 1.0 = 0.0)
    (expZero : exp 0.0 = 1.0) {values : List Float} (nonempty : values ≠ [])
    (ones : ∀ x ∈ values, x = 1.0) : geometricMeanBy log exp values = some 1.0 := by
  match values with
  | [] => exact absurd rfl nonempty
  | [x] => rw [geometricMeanBy, ones x List.mem_cons_self]
  | x :: y :: rest =>
      have nonzero : ∀ z ∈ x :: y :: rest, (z == 0.0) = false := by
        intro z mem
        rw [ones z mem]
        decide +kernel
      have logs : floatSum ((x :: y :: rest).map log) = 0.0 := by
        refine floatSum_zeros (by simp) fun z mem => ?_
        obtain ⟨w, listed, rfl⟩ := List.mem_map.mp mem
        rw [ones w listed, logOne]
      have counted : 0 < (UInt64.ofNatClamp (x :: y :: rest).length).toNat := by
        rcases Nat.lt_or_ge (x :: y :: rest).length UInt64.size with small | large
        · rw [UInt64.toNat_ofNatClamp_of_lt small]
          exact Nat.succ_pos _
        · rw [UInt64.toNat_ofNatClamp_of_le large]
          decide
      rw [geometricMeanBy_of_nonzero log exp (by simp) nonzero, logs, zero_div_toFloat counted,
        expZero]

namespace Normalization

/-- Whether each row that is no baseline has the speedup of its baseline, if it has one, and that
speedup is finite and not zero. -/
def KeepsBaselines (rows : List Measurement) : Prop :=
  ∀ row ∈ rows, row.method ≠ baselineMethod → ∀ base, LastBaseline rows row.runBase base →
    row.sum = base ∧ base.isFinite = true ∧ (base == 0.0) = false

/-- Whether there is a group for each row of a table with a baseline and no other, each with a mean
of one, and every value is defined. -/
structure AllOnes (rows : List Measurement) (result : Normalization) : Prop where
  keys : ∀ key, (∃ group ∈ result.groups, group.key = key) ↔ ∃ row base, Member rows key row base
  means : ∀ group ∈ result.groups, group.geomean = some 1.0
  undefined : result.counts.undefined = 0
  undefinedGroups : result.counts.undefinedGroups = 0

variable {rows : List Measurement}

theorem keepsBaselines_iff : KeepsBaselines rows ↔ ∀ pair ∈ based rows,
    pair.1.sum = pair.2 ∧ pair.2.isFinite = true ∧ (pair.2 == 0.0) = false := by
  simp only [Prod.forall, mem_based_iff, KeepsBaselines, and_imp]
  exact ⟨fun keeps row base mem other last => keeps row mem other base last,
    fun keeps row mem other base last => keeps row base mem other last⟩

instance : Decidable (KeepsBaselines rows) :=
  decidable_of_iff _ keepsBaselines_iff.symm

variable (keeps : KeepsBaselines rows)

include keeps

/-- Every quotient is one. -/
theorem quotients_of_keepsBaselines {key : GroupKey} : ∀ x ∈ quotients rows key, x = 1.0 := by
  intro x mem
  obtain ⟨row, base, ⟨listed, other, -, last⟩, -, rfl⟩ := mem_quotients_iff.mp mem
  obtain ⟨same, finite, nonzero⟩ := keeps row listed other base last
  rw [same, div_self finite nonzero]

/-- No group is without a quotient. -/
theorem quotients_ne_nil_of_keepsBaselines {row : Measurement} {base : Float}
    (paired : (row, base) ∈ based rows) : quotients rows row.group ≠ [] := by
  have nonzero := (keepsBaselines_iff.mp keeps _ paired).2.2
  exact List.ne_nil_of_mem
    (mem_quotients_iff.mpr ⟨row, base, member_iff.mp ⟨paired, rfl⟩, nonzero, rfl⟩)

/-- Where every row has the speedup of its baseline, each row with a baseline has its group, and
each group has a mean of exactly one, however many rows there are and however they are ordered and
grouped, and no value and no group is undefined. This holds for any logarithm that is zero at one
and any exponential function that is one at zero, and the table is normalized with those of the
machine. -/
theorem ofTableBy_of_keepsBaselines {log exp : Float → Float} (logOne : log 1.0 = 0.0)
    (expZero : exp 0.0 = 1.0) :
    AllOnes rows (ofTableBy (geometricMeanBy log exp) rows) ∧
      ofTable rows = ofTableBy (geometricMeanBy Float.log Float.exp) rows := by
  have means : ∀ group ∈ (ofTableBy (geometricMeanBy log exp) rows).groups,
      group.geomean = some 1.0 := by
    intro group mem
    rw [groups_ofTableBy] at mem
    obtain ⟨key, listed, rfl⟩ := List.mem_map.mp mem
    rw [mem_sortBy, List.mem_eraseDups] at listed
    obtain ⟨⟨row, base⟩, paired, rfl⟩ := List.mem_map.mp listed
    exact geometricMeanBy_ones logOne expZero (quotients_ne_nil_of_keepsBaselines keeps paired)
      (quotients_of_keepsBaselines keeps)
  have undefined : (values rows).countP (·.2.isNone) = 0 := by
    rw [values_eq, List.countP_map, List.countP_eq_zero]
    rintro ⟨row, base⟩ paired
    have nonzero := (keepsBaselines_iff.mp keeps _ paired).2.2
    simp [quotient?, nonzero]
  have undefinedGroups :
      (ofTableBy (geometricMeanBy log exp) rows).groups.countP (·.geomean.isNone) = 0 := by
    rw [List.countP_eq_zero]
    intro group mem
    simp [means group mem]
  exact ⟨⟨exists_group_iff rows _, means, undefined, undefinedGroups⟩, rfl⟩

omit keeps

/-- The line that touches the logarithm at one. -/
def logTangent (x : Float) : Float :=
  x - 1.0

/-- The line that touches the exponential function at zero. -/
def expTangent (x : Float) : Float :=
  x + 1.0

/-- Runs of two methods that keep the speedups of the later baselines, and one without a
baseline. -/
theorem ofTableBy_of_keepsBaselines_interleaved :
    let rows : List Measurement :=
      [⟨"baseline", .rate, "none", "rate.x", 2.0⟩, ⟨"para", .rate, "512", "rate.x", 0.1⟩,
        ⟨"graphene", .rate, "512", "rate.x", 0.1⟩, ⟨"para", .rate, "512", "rate.y", -3.0⟩,
        ⟨"para", .single, "512", "single.z", 5.0⟩, ⟨"baseline", .rate, "none", "rate.y", -3.0⟩,
        ⟨"para", .rate, "512", "rate.x", 0.1⟩, ⟨"baseline", .rate, "none", "rate.x", 0.1⟩]
    (logTangent 1.0 = 0.0 ∧ expTangent 0.0 = 1.0 ∧ KeepsBaselines rows) ∧
      AllOnes rows (ofTableBy (geometricMeanBy logTangent expTangent) rows) ∧
        (∃ group ∈ (ofTableBy (geometricMeanBy logTangent expTangent) rows).groups,
          group.key = ⟨"para", .rate, "512"⟩ ∧ group.geomean = some 1.0) ∧
        (quotients rows ⟨"para", .rate, "512"⟩).length = 3 := by
  intro rows
  have logOne : logTangent 1.0 = 0.0 := by decide +kernel
  have expZero : expTangent 0.0 = 1.0 := by decide +kernel
  have keeps : KeepsBaselines rows := by decide +kernel
  obtain ⟨ones, -⟩ := ofTableBy_of_keepsBaselines keeps logOne expZero
  have last : LastBaseline rows "rate.x" 0.1 :=
    ⟨rows.take 7, ⟨"baseline", .rate, "none", "rate.x", 0.1⟩, [], rfl, ⟨rfl, rfl⟩, rfl, by simp⟩
  have member : Member rows ⟨"para", .rate, "512"⟩ ⟨"para", .rate, "512", "rate.x", 0.1⟩ 0.1 :=
    ⟨by simp [rows], by decide, rfl, last⟩
  obtain ⟨group, listed, key⟩ := (ones.keys _).mpr ⟨_, _, member⟩
  exact ⟨⟨logOne, expZero, keeps⟩, ones, ⟨group, listed, key, ones.means group listed⟩,
    by decide +kernel⟩

end Normalization

end SpeedupStudy
