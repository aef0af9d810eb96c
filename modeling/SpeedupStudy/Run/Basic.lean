/-
# Runs of a study

A study simulates many runs. A run applies a mitigation method with one configuration to a
workload, on a benign machine or on one that shares its cores with aggressors. Runs of the
method `baseline` apply no mitigation and are what all others are measured against. The run base
is the mode and the workload together, so runs with one run base execute the same programs.
-/

namespace SpeedupStudy

/-- Whether all cores run ordinary programs or some of them run an attack. -/
inductive Scenario where
  | benign
  | malicious
deriving DecidableEq, Repr, Inhabited

namespace Scenario

/-- The word for a scenario in names, options and files. -/
def name : Scenario → String
  | benign => "benign"
  | malicious => "malicious"

/-- The scenario with a name. -/
def ofName? (s : String) : Option Scenario :=
  if s = benign.name then some benign
  else if s = malicious.name then some malicious
  else none

@[simp]
theorem ofName?_name (t : Scenario) : ofName? t.name = some t := by
  cases t <;> decide

theorem eq_name_of_ofName? {s : String} {t : Scenario} (h : ofName? s = some t) : s = t.name := by
  unfold ofName? at h
  split at h
  · cases h; assumption
  · split at h
    · cases h; assumption
    · cases h

end Scenario

/-- How the cores of a run are filled: one program alone, one program on every core, or a mix
of programs. -/
inductive Mode where
  | single
  | rate
  | mix
deriving DecidableEq, Repr, Inhabited

namespace Mode

/-- The word for a mode in names and tables. -/
def name : Mode → String
  | single => "single"
  | rate => "rate"
  | mix => "mix"

/-- The mode with a name. -/
def ofName? (s : String) : Option Mode :=
  if s = single.name then some single
  else if s = rate.name then some rate
  else if s = mix.name then some mix
  else none

@[simp]
theorem ofName?_name (m : Mode) : ofName? m.name = some m := by
  cases m <;> decide

theorem eq_name_of_ofName? {s : String} {m : Mode} (h : ofName? s = some m) :
    s = m.name := by
  unfold ofName? at h
  split at h
  · cases h; assumption
  · split at h
    · cases h; assumption
    · split at h
      · cases h; assumption
      · cases h

end Mode

/-- The method of runs without mitigation. -/
def baselineMethod : String := "baseline"

/-- The configuration of runs that have nothing to configure. -/
def baselineConfig : String := "none"

/-- What a run is called. The scenario is absent in the short form of baseline names, which is only
used for benign machines. -/
structure Run where
  scenario : Option Scenario
  method : String
  config : String
  mode : Mode
  runBase : String
deriving DecidableEq, Repr

namespace Run

/-- The scenario, benign where the name does not tell. -/
def effectiveScenario (run : Run) : Scenario :=
  run.scenario.getD .benign

/-- Whether the run belongs to a pass over one scenario. -/
def belongsTo (run : Run) (t : Scenario) : Bool :=
  run.effectiveScenario == t

/-- Whether the run applies no mitigation. -/
def isBaseline (run : Run) : Bool :=
  run.method == baselineMethod

/-- The run base without its mode, or all of it where it does not start with the mode. -/
def workload (run : Run) : String :=
  let start := run.mode.name.toList ++ ['.']
  let base := run.runBase.toList
  if start.isPrefixOf base then String.ofList (base.drop start.length) else run.runBase

/-- The fields of a run joined by dots; a missing scenario leaves no trace. -/
def display (run : Run) : String :=
  let fields := run.method ++ "." ++ run.config ++ "." ++ run.runBase
  match run.scenario with
  | some t => t.name ++ "." ++ fields
  | none => fields

/-- Two runs with one key describe the same experiment, even where only one of them tells its
scenario. -/
def sameKey (a b : Run) : Bool :=
  a.method == b.method && a.mode == b.mode && a.config == b.config && a.runBase == b.runBase

end Run

end SpeedupStudy
