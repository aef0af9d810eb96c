/-
# Configurations

A configuration describes one pass over the logs of a study, so that the pass can be repeated: the
machine, the scenario, the table to write, and what the experiment is called. Its counts are 64-bit
words. A configuration is usable when some core is left for ordinary programs, the fault marker has
a character that is not blank, and a set number of threads is positive.
-/

import SpeedupStudy.Capacity
import SpeedupStudy.Catalog.Resolve
import SpeedupStudy.Log.Basic

namespace SpeedupStudy

/-- The columns of the result table for speedups: one for each core, or one for their sum. -/
inductive ValueColumns where
  | perCore
  | sum
deriving DecidableEq, Repr, Inhabited

namespace ValueColumns

/-- The word for a choice of value columns in files. -/
def name : ValueColumns → String
  | perCore => "per_core"
  | sum => "sum"

/-- The choice of value columns with a name. -/
def ofName? (s : String) : Option ValueColumns :=
  if s = perCore.name then some perCore
  else if s = sum.name then some sum
  else none

@[simp]
theorem ofName?_name (l : ValueColumns) : ofName? l.name = some l := by
  cases l <;> decide

end ValueColumns

/-- How logs are turned into rows. -/
structure CollectionConfig where
  coreCount : UInt64 := 16
  aggressorCores : UInt64 := 4
  scenario : Scenario := .benign
  columns : ValueColumns := .perCore
  faultMarker : String := defaultFaultMarker
deriving DecidableEq, Repr

/-- How a pass is run. Without a number of threads the machine decides. -/
structure ExecutionConfig where
  threads : Option UInt64 := none
  reportProgress : Bool := false
deriving DecidableEq, Repr

/-- What an experiment is called. -/
structure Experiment where
  name : String
  description : Option String := none
  tags : Option (List String) := none
deriving DecidableEq, Repr

/-- The description of a pass. Without a catalog path the built-in catalog is used. -/
structure Config where
  catalogPath : Option String := none
  collection : CollectionConfig := {}
  execution : ExecutionConfig := {}
  metadata : Option Experiment := none
deriving DecidableEq, Repr

/-- What makes a configuration unusable. -/
inductive ConfigProblem where
  | noCores
  | tooManyAggressors (aggressorCores coreCount : UInt64)
  | blankFaultMarker
  | noThreads
deriving DecidableEq, Repr

/-- The wording of a configuration problem. -/
def ConfigProblem.message : ConfigProblem → String
  | noCores => "core_count must be > 0"
  | tooManyAggressors aggressorCores coreCount =>
    "aggressor_cores (" ++ toString aggressorCores.toNat ++
      ") must be smaller than core_count (" ++ toString coreCount.toNat ++ ")"
  | blankFaultMarker => "fault_marker must not be empty"
  | noThreads => "threads must be > 0 when set"

namespace CollectionConfig

/-- The machine that a configuration describes. -/
def machine (c : CollectionConfig) : Machine :=
  ⟨c.coreCount.toNat, c.aggressorCores.toNat⟩

/-- How a configuration reads logs. -/
def logReader (c : CollectionConfig) : LogReader :=
  ⟨c.coreCount.toNat, c.faultMarker⟩

/-- The first problem of the collection settings. -/
def problem? (c : CollectionConfig) : Option ConfigProblem :=
  if c.coreCount = 0 then some .noCores
  else if c.coreCount ≤ c.aggressorCores then
    some (.tooManyAggressors c.aggressorCores c.coreCount)
  else if (Text.trim c.faultMarker.toList).isEmpty then some .blankFaultMarker
  else none

end CollectionConfig

namespace Config

/-- The first problem of a configuration. -/
def problem? (c : Config) : Option ConfigProblem :=
  c.collection.problem?.or (if c.execution.threads = some 0 then some .noThreads else none)

/-- Whether a configuration is usable. -/
def isValid (c : Config) : Bool :=
  c.problem?.isNone

/-- The configuration for another scenario. -/
def withScenario (c : Config) (t : Scenario) : Config :=
  { c with collection := { c.collection with scenario := t } }

/-- The configuration for another machine. -/
def withCores (c : Config) (coreCount aggressorCores : UInt64) : Config :=
  { c with collection := { c.collection with coreCount, aggressorCores } }

/-- The configuration with another choice of value columns. -/
def withColumns (c : Config) (columns : ValueColumns) : Config :=
  { c with collection := { c.collection with columns } }

/-- The configuration with another fault marker. -/
def withFaultMarker (c : Config) (faultMarker : String) : Config :=
  { c with collection := { c.collection with faultMarker } }

/-- The configuration with any number of threads, or none. -/
def setThreads (c : Config) (threads : Option UInt64) : Config :=
  { c with execution := { c.execution with threads } }

/-- The configuration with a positive number of threads. -/
def withThreads (c : Config) (threads : UInt64) : Except Abort Config :=
  if threads = 0 then .error .zeroThreads else .ok (c.setThreads (some threads))

/-- The configuration with a catalog file. -/
def withCatalogPath (c : Config) (path : String) : Config :=
  { c with catalogPath := some path }

/-- The configuration with the metadata of an experiment. -/
def withMetadata (c : Config) (metadata : Experiment) : Config :=
  { c with metadata := some metadata }

end Config

end SpeedupStudy
