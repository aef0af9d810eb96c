/-
# The order of runs

Tables list runs by method, mode, configuration, run base and scenario. Configurations that are
numbers come first, by value, and the others follow as text; two spellings of one number are ordered
as text, so different configurations are never equal in the order. The scenario is last, and a run
without one precedes the runs of the same key that have one.
-/

import SpeedupStudy.Run.Basic
import SpeedupStudy.Decimal.Numeral
import SpeedupStudy.Decimal.Order

namespace SpeedupStudy

/-- The number that a configuration denotes, if it denotes a finite one. -/
def configNumber? (config : String) : Option Float :=
  (readFloat? config.toList).filter Float.isFinite

/-- Compare two configurations: numbers by value and before all others, then as text. -/
def compareConfigs (a b : String) : Ordering :=
  match configNumber? a, configNumber? b with
  | some x, some y => (compareFloats x y).then (compare a b)
  | some _, none => .lt
  | none, some _ => .gt
  | none, none => compare a b

/-- Compare two optional scenarios by name, an absent one first. -/
def compareScenarios : Option Scenario → Option Scenario → Ordering
  | none, none => .eq
  | none, some _ => .lt
  | some _, none => .gt
  | some a, some b => compare a.name b.name

namespace Run

/-- Compare what two runs execute, leaving their scenarios aside. -/
def compareKey (a b : Run) : Ordering :=
  (compare a.method b.method).then <|
    (compare a.mode.name b.mode.name).then <|
      (compareConfigs a.config b.config).then (compare a.runBase b.runBase)

/-- Compare two runs. -/
def compare (a b : Run) : Ordering :=
  (compareKey a b).then (compareScenarios a.scenario b.scenario)

end Run

end SpeedupStudy
