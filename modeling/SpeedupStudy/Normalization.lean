/-
# Normalized speedups

A row is normalized by dividing its speedup by that of the baseline of its run base. The rows of
one method, report class and configuration make a group, and a group is summarized by the geometric
mean of its normalized values. Nothing here fails: a row without a baseline is counted and left
out, and where the baseline is zero the value is undefined.
-/

import SpeedupStudy.Run.Order
import SpeedupStudy.Sort
import SpeedupStudy.Speedup

namespace SpeedupStudy

/-- The class in which a mode is reported. The mix of the traces with the most memory traffic is a
class of its own. -/
inductive ReportClass where
  | single
  | rate
  | mix
  | mixHigh
deriving DecidableEq, Repr

namespace ReportClass

/-- The word for a report class. -/
def name : ReportClass → String
  | single => "single"
  | rate => "rate"
  | mix => "mix"
  | mixHigh => "mix_high"

/-- The run base of the mix that is a class of its own. -/
def highMixRunBase : String := "mix.high"

/-- The class of a run. -/
def classify (mode : Mode) (runBase : String) : ReportClass :=
  match mode with
  | .rate => rate
  | .single => single
  | .mix => if runBase = highMixRunBase then mixHigh else mix

end ReportClass

/-- A run of a result table with its weighted speedup. -/
structure Measurement where
  method : String
  mode : Mode
  config : String
  runBase : String
  sum : Float
deriving DecidableEq

/-- Whether the run applies no mitigation. -/
def Measurement.isBaseline (row : Measurement) : Bool :=
  row.method == baselineMethod

/-- What the runs of a group have in common. -/
structure GroupKey where
  method : String
  reportClass : ReportClass
  config : String
deriving DecidableEq, Repr

/-- Compare two groups by method, name of the report class and configuration. -/
def GroupKey.compare (a b : GroupKey) : Ordering :=
  (Ord.compare a.method b.method).then <|
    (Ord.compare a.reportClass.name b.reportClass.name).then (compareConfigs a.config b.config)

/-- The group of a run. -/
def Measurement.group (row : Measurement) : GroupKey :=
  ⟨row.method, ReportClass.classify row.mode row.runBase, row.config⟩

/-- A group with the geometric mean of its defined values, if there are any. -/
structure GroupMean where
  key : GroupKey
  geomean : Option Float
deriving DecidableEq

/-- The counts of a normalization. -/
structure NormalizationCounts where
  normalized : Nat := 0
  withoutBaseline : Nat := 0
  undefined : Nat := 0
  groups : Nat := 0
  undefinedGroups : Nat := 0
deriving DecidableEq, Repr

/-- The groups of a table in their order, and the counts. -/
structure Normalization where
  groups : List GroupMean
  counts : NormalizationCounts
deriving DecidableEq

/-- The geometric mean, by a logarithm and its inverse. One value is its own mean, without any
rounding, and a zero among several makes the mean zero. -/
def geometricMeanBy (log exp : Float → Float) : List Float → Option Float
  | [] => none
  | [x] => some x
  | values =>
    if values.any (· == 0.0) then some 0.0
    else
      let count := UInt64.toFloat (.ofNatClamp values.length)
      some (exp (floatSum (values.map log) / count))

/-- The mean of several values without a zero is taken by way of their logarithms. -/
theorem geometricMeanBy_of_nonzero (log exp : Float → Float) {values : List Float}
    (several : 2 ≤ values.length) (nonzero : ∀ x ∈ values, (x == 0.0) = false) :
    geometricMeanBy log exp values =
      some (exp (floatSum (values.map log) / UInt64.toFloat (.ofNatClamp values.length))) := by
  have noZero : ¬ values.any (· == 0.0) = true := by
    rw [Bool.not_eq_true, List.any_eq_false]
    intro x mem
    rw [nonzero x mem]
    exact Bool.false_ne_true
  match values with
  | [] | [x] => exact absurd several (by simp)
  | x :: y :: rest => exact if_neg noZero

/-- The geometric mean. -/
def geometricMean : List Float → Option Float :=
  geometricMeanBy Float.log Float.exp

namespace Normalization

/-- The speedup of the last baseline of a run base. -/
def baseline? (rows : List Measurement) (runBase : String) : Option Float :=
  (rows.findRev? fun row => row.isBaseline && row.runBase == runBase).map (·.sum)

/-- The rows that are no baselines. -/
def candidates (rows : List Measurement) : List Measurement :=
  rows.filter (! ·.isBaseline)

/-- A value over its baseline, unless that is zero. -/
def quotient? (sum base : Float) : Option Float :=
  if base == 0.0 then none else some (sum / base)

/-- The group and the normalized value of every row with a baseline, in the order of the rows. -/
def values (rows : List Measurement) : List (GroupKey × Option Float) :=
  (candidates rows).filterMap fun row =>
    (baseline? rows row.runBase).map fun base => (row.group, quotient? row.sum base)

/-- The defined values of a group. -/
def valuesOf (key : GroupKey) (values : List (GroupKey × Option Float)) : List Float :=
  (values.filter (·.1 == key)).filterMap (·.2)

/-- Normalize a table with a mean. -/
def ofTableBy (mean : List Float → Option Float) (rows : List Measurement) : Normalization :=
  let values := values rows
  let keys := sortBy GroupKey.compare (values.map (·.1)).eraseDups
  let groups := keys.map fun key => ⟨key, mean (valuesOf key values)⟩
  ⟨groups,
    { normalized := values.length
      withoutBaseline := (candidates rows).length - values.length
      undefined := values.countP (·.2.isNone)
      groups := groups.length
      undefinedGroups := groups.countP (·.geomean.isNone) }⟩

/-- Normalize a table. -/
def ofTable (rows : List Measurement) : Normalization :=
  ofTableBy geometricMean rows

end Normalization

end SpeedupStudy
