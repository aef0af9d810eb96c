/-
# Catalogs as documents

A catalog is a table of rates and a table of mixes, both by name. A document without mixes is the
catalog without any.
-/

import SpeedupStudy.Catalog.Basic
import SpeedupStudy.Document.Fields

namespace SpeedupStudy

namespace Catalog

/-- The fields of the document of a catalog. -/
def toFields (c : Catalog) : List (String × Value) :=
  [("traces", .table (c.traces.entries.map fun (name, ipc) => (name, .real ipc))),
   ("mixes", .table (c.mixes.entries.map fun (name, traces) =>
     (name, .list (traces.map .text))))]

/-- The catalog of a document in some format. -/
def ofValue? (format : DocumentFormat) (v : Value) : Option Catalog := do
  let fields ← v.fields? format ["traces", "mixes"]
  let traces ← fields.required? 0 (Value.table? Value.float?)
  let mixes ← fields.default? 1 (Value.table? (Value.list? Value.text?)) []
  some ⟨.ofList traces, .ofList mixes⟩

end Catalog

end SpeedupStudy
