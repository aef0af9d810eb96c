/-
# Run catalogs

A catalog knows the traces of a study and the instructions per cycle that each reaches when it
runs alone, and the mixes, which assign a trace to every core. A catalog is usable when every
trace has a name and a finite positive rate and every mix assigns known traces.
-/

import SpeedupStudy.Decimal.Shortest
import SpeedupStudy.NameMap

namespace SpeedupStudy

/-- The solo rates of traces, and the traces that mixes assign to cores. -/
structure Catalog where
  traces : NameMap Float := .empty
  mixes : NameMap (List String) := .empty
deriving DecidableEq

/-- What makes a catalog unusable. -/
inductive CatalogProblem where
  | namelessTrace
  | invalidIpc (trace : String) (ipc : Float)
  | emptyMix (mix : String)
  | danglingTrace (mix trace : String)
deriving DecidableEq

/-- The wording of a catalog problem. -/
def CatalogProblem.message : CatalogProblem → String
  | namelessTrace => "trace names must be non-empty"
  | invalidIpc trace ipc =>
    "trace '" ++ trace ++ "' has invalid solo IPC " ++ String.ofList (floatText ipc)
  | emptyMix mix => "mix '" ++ mix ++ "' assigns no traces"
  | danglingTrace mix trace => "mix '" ++ mix ++ "' references unknown trace '" ++ trace ++ "'"

namespace Catalog

/-- The catalog without entries. -/
def empty : Catalog := {}

/-- The catalog with a trace put in or its rate replaced. -/
def withTrace (c : Catalog) (name : String) (ipc : Float) : Catalog :=
  { c with traces := c.traces.insert name ipc }

/-- The catalog with a mix put in or replaced. -/
def withMix (c : Catalog) (name : String) (traces : List String) : Catalog :=
  { c with mixes := c.mixes.insert name traces }

/-- The catalog with measured rates put in. -/
def withTraceIpcs (c : Catalog) (ipcs : NameMap Float) : Catalog :=
  { c with traces := c.traces.insertAll ipcs.entries }

/-- The rate of a trace that runs alone. -/
def traceIpc? (c : Catalog) (name : String) : Option Float :=
  c.traces.get? name

/-- The traces that a mix assigns, core by core. -/
def mix? (c : Catalog) (name : String) : Option (List String) :=
  c.mixes.get? name

/-- What is wrong with a trace. -/
def traceProblem? : String × Float → Option CatalogProblem
  | (name, ipc) =>
    if name = "" then some .namelessTrace
    else if ipc.isFinite && 0.0 < ipc then none
    else some (.invalidIpc name ipc)

/-- What is wrong with a mix, given the known traces. -/
def mixProblem? (traces : NameMap Float) : String × List String → Option CatalogProblem
  | (name, assigned) =>
    if assigned.isEmpty then some (.emptyMix name)
    else (assigned.find? (! traces.contains ·)).map (.danglingTrace name)

/-- The first problem of a catalog: traces before mixes, each in the order of their names. -/
def problem? (c : Catalog) : Option CatalogProblem :=
  (c.traces.entries.findSome? traceProblem?).or
    (c.mixes.entries.findSome? (mixProblem? c.traces))

/-- Whether a catalog is usable. -/
def isValid (c : Catalog) : Bool :=
  c.problem?.isNone

end Catalog

end SpeedupStudy
