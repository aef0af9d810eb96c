/-
# Weighted speedups

A core of a run executes its instructions in the cycles of the run. Its speedup is the rate it
reaches there over the rate its program reaches when it runs alone, and the weighted speedup of
the run is the sum over its cores. A run that reported no throughput has speedup zero on every
core; its status keeps it apart from runs that were merely slow.
-/

import SpeedupStudy.Log.Basic

namespace SpeedupStudy

/-- The sum of a list from left to right. It starts at minus zero, the value that adding does
not change, so the sum of no values is minus zero. -/
def floatSum (values : List Float) : Float :=
  values.foldl (· + ·) (-0.0)

/-- How a run ended. -/
inductive Ending where
  /-- It reported throughput. -/
  | valid
  /-- It reported no throughput. -/
  | crashed
  /-- Its log carries the fault marker, whether or not it reported throughput. -/
  | faulted
deriving DecidableEq, Repr

/-- The word for an ending. -/
def Ending.name : Ending → String
  | valid => "valid"
  | crashed => "crashed"
  | faulted => "faulted"

/-- The speedups of the cores of a run. -/
structure Speedup where
  perCore : List Float
  status : Ending
deriving DecidableEq

namespace Speedup

/-- The speedup of one core, given the cycles of the run and the solo rate of the program on
that core. Cores without a positive solo rate count as zero. -/
def ofCore (cycles : Float) (instructions : UInt64) : Option Float → Float
  | some solo => if 0.0 < solo then (instructions.toFloat / cycles) / solo else 0.0
  | none => 0.0

/-- The speedups of a run whose cores have these solo rates; cores past the end of the list
have none. -/
def ofLog (log : RunLog) (solo : List Float) : Speedup :=
  match log.cycles? with
  | none =>
    ⟨List.replicate log.perCore.length 0.0, if log.fault then .faulted else .crashed⟩
  | some cycles =>
    ⟨log.perCore.zipIdx.map fun (instructions, core) => ofCore cycles instructions solo[core]?,
      if log.fault then .faulted else .valid⟩

/-- The weighted speedup of the whole run. -/
def sum (s : Speedup) : Float :=
  floatSum s.perCore

/-- Whether the run completed without a fault. -/
def isValid (s : Speedup) : Bool :=
  s.status == .valid

@[simp]
theorem length_perCore_ofLog (log : RunLog) (solo : List Float) :
    (ofLog log solo).perCore.length = log.perCore.length := by
  unfold ofLog
  split <;> simp

end Speedup

end SpeedupStudy
