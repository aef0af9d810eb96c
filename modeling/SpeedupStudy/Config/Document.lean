/-
# Configurations as documents

A configuration is a table of tables. What is absent is left out when it is written. What has a
default may be left out when it is read: the value columns, the fault marker, everything about the
execution, and everything optional.
-/

import SpeedupStudy.Config.Basic
import SpeedupStudy.Document.Fields

namespace SpeedupStudy

/-- A 64-bit word as a value. -/
def Value.word (n : UInt64) : Value :=
  natural n.toNat

/-- A count as a 64-bit word. -/
def Value.word? (v : Value) : Option UInt64 :=
  v.count?.map UInt64.ofNat

namespace CollectionConfig

/-- The document of the collection settings. -/
def toValue (c : CollectionConfig) : Value :=
  .table
    [("core_count", .word c.coreCount),
     ("aggressor_cores", .word c.aggressorCores),
     ("sim_type", .text c.scenario.name),
     ("layout", .text c.columns.name),
     ("fault_marker", .text c.faultMarker)]

/-- The names of the collection settings. -/
def fieldNames : List String :=
  ["core_count", "aggressor_cores", "sim_type", "layout", "fault_marker"]

/-- The collection settings of a document in some format. -/
def ofValue? (format : DocumentFormat) (v : Value) : Option CollectionConfig := do
  let fields ← v.fields? format fieldNames
  some
    { coreCount := ← fields.required? 0 Value.word?
      aggressorCores := ← fields.required? 1 Value.word?
      scenario := ← fields.required? 2 (Value.choice? format Scenario.ofName?)
      columns := ← fields.default? 3 (Value.choice? format ValueColumns.ofName?) .perCore
      faultMarker := ← fields.default? 4 Value.text? defaultFaultMarker }

end CollectionConfig

namespace ExecutionConfig

/-- The document of how a pass is run. -/
def toValue (c : ExecutionConfig) : Value :=
  Value.tableOfPresent
    [("threads", c.threads.map .word), ("report_progress", some (.bool c.reportProgress))]

/-- How a pass is run by a document in some format. -/
def ofValue? (format : DocumentFormat) (v : Value) : Option ExecutionConfig := do
  let fields ← v.fields? format ["threads", "report_progress"]
  some
    { threads := ← fields.optional? 0 Value.word?
      reportProgress := ← fields.default? 1 Value.bool? false }

end ExecutionConfig

namespace Experiment

/-- The document of the metadata of an experiment. -/
def toValue (m : Experiment) : Value :=
  Value.tableOfPresent
    [("name", some (.text m.name)),
     ("description", m.description.map .text),
     ("tags", m.tags.map fun tags => .list (tags.map .text))]

/-- The metadata of a document in some format. -/
def ofValue? (format : DocumentFormat) (v : Value) : Option Experiment := do
  let fields ← v.fields? format ["name", "description", "tags"]
  some
    { name := ← fields.required? 0 Value.text?
      description := ← fields.optional? 1 Value.text?
      tags := ← fields.optional? 2 (Value.list? Value.text?) }

end Experiment

namespace Config

/-- The fields of the document of a configuration. -/
def toFields (c : Config) : List (String × Value) :=
  [("catalog_path", c.catalogPath.map Value.text),
   ("collect", some c.collection.toValue),
   ("batch", some c.execution.toValue),
   ("metadata", c.metadata.map (·.toValue))].filterMap fun (name, value) => value.map (name, ·)

/-- The document of a configuration. -/
def toValue (c : Config) : Value :=
  .table c.toFields

/-- The configuration of a document in some format. -/
def ofValue? (format : DocumentFormat) (v : Value) : Option Config := do
  let fields ← v.fields? format ["catalog_path", "collect", "batch", "metadata"]
  some
    { catalogPath := ← fields.optional? 0 Value.text?
      collection := ← fields.required? 1 (CollectionConfig.ofValue? format)
      execution := ← fields.default? 2 (ExecutionConfig.ofValue? format) {}
      metadata := ← fields.optional? 3 (Experiment.ofValue? format) }

end Config

end SpeedupStudy
