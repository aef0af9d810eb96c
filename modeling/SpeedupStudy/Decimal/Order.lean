/-
# A total order on binary64 numbers

Configurations are sorted by number, and a sort needs an order in which different numbers are
never equal. The key of a number orders the positive ones by their bits and the negative ones
against them, so it refines the numeric order and puts `-0` right before `0`.
-/

namespace SpeedupStudy

/-- The place of a number in the total order: its bits where the sign is plus, and below zero
the farther down the larger the bits without the sign. -/
def orderKey (x : Float) : Int :=
  let bits := x.toBits.toNat
  if bits < Nat.pow 2 63 then bits else (Nat.pow 2 63 : Int) - 1 - bits

/-- Compare two numbers in the total order. -/
def compareFloats (x y : Float) : Ordering :=
  compare (orderKey x) (orderKey y)

end SpeedupStudy
