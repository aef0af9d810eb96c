/-
# Solo rates of the cores of a run

The speedup of a core needs the solo rate of the program on it. In a malicious run the first
cores are reserved for the aggressors, so a rate run covers the other cores only, and a mix run
skips as many entries at the start of its assignment. A single run uses one core.
-/

import SpeedupStudy.Capacity
import SpeedupStudy.Catalog.Basic
import SpeedupStudy.Run.Basic

namespace SpeedupStudy

/-- The cores of a machine, and how many of them run an attack in malicious runs. -/
structure Machine where
  coreCount : Nat
  aggressorCores : Nat
deriving DecidableEq, Repr

/-- The cores that a run of this scenario reserves for aggressors, at most all of them. -/
def Machine.reservedCores (machine : Machine) : Scenario → Nat
  | .malicious => min machine.aggressorCores machine.coreCount
  | .benign => 0

/-- The cores that a run of this scenario leaves to ordinary programs. -/
def Machine.benignCores (machine : Machine) (t : Scenario) : Nat :=
  machine.coreCount - machine.reservedCores t

/-- Why a run has no solo rates. -/
inductive ResolveError where
  | unknownTrace (trace : String)
  | unknownMix (mix : String)
  | mixTooShort (mix : String) (needed available : Nat)
deriving DecidableEq, Repr

/-- The wording of an unresolved run. -/
def ResolveError.message : ResolveError → String
  | unknownTrace trace => "trace '" ++ trace ++ "' has no solo IPC in the catalog"
  | unknownMix mix => "mix workload '" ++ mix ++ "' is not in the catalog"
  | mixTooShort mix needed available =>
    "mix workload '" ++ mix ++ "' assigns " ++ toString available ++ " cores, run needs " ++
      toString needed

namespace Catalog

/-- The rate of a trace, or that it is unknown. -/
def lookup (c : Catalog) (trace : String) : Except ResolveError Float :=
  match c.traceIpc? trace with
  | some ipc => .ok ipc
  | none => .error (.unknownTrace trace)

/-- The rates of the traces of a list, or the first unknown one. -/
def lookupAll (c : Catalog) : List String → Except ResolveError (List Float)
  | [] => .ok []
  | trace :: rest =>
    match c.lookup trace with
    | .error e => .error e
    | .ok ipc => (c.lookupAll rest).map (ipc :: ·)

/-- The solo rates of the cores of a run, beginning with core 0. -/
def soloIpcs (c : Catalog) (run : Run) (machine : Machine) :
    Except ResolveError (List Float) :=
  match run.mode with
  | .single => (c.lookup run.workload).map (List.replicate (min machine.coreCount 1))
  | .rate =>
    (c.lookup run.workload).map (List.replicate (machine.benignCores run.effectiveScenario))
  | .mix =>
    match c.mix? run.workload with
    | none => .error (.unknownMix run.workload)
    | some assigned =>
      if assigned.length < machine.coreCount then
        .error (.mixTooShort run.workload machine.coreCount assigned.length)
      else
        c.lookupAll
          ((assigned.take machine.coreCount).drop (machine.reservedCores run.effectiveScenario))

/-- Whether the solo rates of a run can be listed. Only a rate run can need more of them than
the catalog itself holds, and only if its trace is known. -/
def canListSoloIpcs (c : Catalog) (run : Run) (machine : Machine) : Bool :=
  run.mode != .rate || (c.traceIpc? run.workload).isNone ||
    fitsInMemory numberSize (machine.benignCores run.effectiveScenario)

/-- The solo rates of a run, unless memory cannot list them. -/
def soloIpcs? (c : Catalog) (run : Run) (machine : Machine) :
    Except Abort (Except ResolveError (List Float)) :=
  if c.canListSoloIpcs run machine then .ok (c.soloIpcs run machine)
  else .error .capacityOverflow

end Catalog

end SpeedupStudy
