/-
# The shortest decimal of a binary64 number

A number is written with as few digits as a reader needs to find it again. The candidates with
`n` digits are the two neighbours of the number on the grid of decimals with `n` significant
digits. The first `n` from 1 to 17 with a neighbour that reads back as the number decides, and
of two such neighbours the nearer one is taken. Every grid point that reads back as the number
has a neighbour of the number between it and the number, so no shorter decimal reads back.
-/

import SpeedupStudy.Decimal.Numeral

namespace SpeedupStudy

/-- The exact value of a finite binary64 number without its sign, as a fraction. -/
structure Magnitude where
  numerator : Nat
  denominator : Nat
deriving DecidableEq, Repr

namespace Magnitude

/-- The low 52 bits are the fraction and the 11 bits above them the exponent. The exponent
zero marks the subnormal numbers, which have no hidden leading bit. -/
def ofFloat (x : Float) : Magnitude :=
  let bits := x.toBits.toNat % Nat.pow 2 63
  let exponent := bits / Nat.pow 2 52
  let fraction := bits % Nat.pow 2 52
  let significand := if exponent = 0 then fraction else Nat.pow 2 52 + fraction
  let power : Int := (max exponent 1 : Nat) - 1075
  if 0 ≤ power then ⟨significand * Nat.pow 2 power.toNat, 1⟩
  else ⟨significand, Nat.pow 2 power.natAbs⟩

/-- The value divided by a power of ten. -/
def scale (v : Magnitude) (power : Int) : Magnitude :=
  if 0 ≤ power then ⟨v.numerator, v.denominator * Nat.pow 10 power.toNat⟩
  else ⟨v.numerator * Nat.pow 10 power.natAbs, v.denominator⟩

/-- Whether the value is at least this power of ten. -/
def reaches (v : Magnitude) (power : Int) : Bool :=
  let s := v.scale power
  s.denominator ≤ s.numerator

/-- The power of ten of the leading digit of a positive value. The lengths in bits give it up
to one, and two comparisons settle it. -/
def leadingPower (v : Magnitude) : Int :=
  let length : Int := (v.numerator.log2 : Int) - v.denominator.log2
  let guess := (length * 30103).fdiv 100000
  if v.reaches (guess + 1) then guess + 1
  else if v.reaches guess then guess
  else guess - 1

/-- The neighbours of a positive value among the decimals with `n` significant digits, the
nearer one first; of two equally near ones the upper one is first. -/
def neighbours (v : Magnitude) (n : Nat) : List (Nat × Int) :=
  let power := v.leadingPower - n + 1
  let s := v.scale power
  let lower := s.numerator / s.denominator
  let excess := s.numerator % s.denominator
  if excess = 0 then [(lower, power)]
  else if 2 * excess < s.denominator then [(lower, power), (lower + 1, power)]
  else [(lower + 1, power), (lower, power)]

/-- All digits of a value: dividing by a power of two is multiplying by a power of five and
dividing by the power of ten. -/
def exact (v : Magnitude) : Nat × Int :=
  let places := v.denominator.log2
  (v.numerator * Nat.pow 5 places, -(places : Int))

/-- The value rounded to whole multiples of `10 ^ power`, a half going to the even one. -/
def roundTo (v : Magnitude) (power : Int) : Nat :=
  let s := v.scale power
  let lower := s.numerator / s.denominator
  let excess := s.numerator % s.denominator
  if 2 * excess < s.denominator then lower
  else if s.denominator < 2 * excess then lower + 1
  else lower + lower % 2

end Magnitude

/-- Whether the sign bit of a number is set. -/
def signBit (x : Float) : Bool :=
  Nat.pow 2 63 ≤ x.toBits.toNat

namespace Decimal

/-- A power of ten with one digit, where rounding up gave `10 ^ n`. -/
def dropCarry (n : Nat) : Nat × Int → Nat × Int
  | (digits, power) => if digits = Nat.pow 10 n then (1, power + n) else (digits, power)

/-- The decimals to try for a finite number that is not zero, the shortest first. All digits
come last and are never needed, as some decimal with 17 digits reads back. -/
def candidates (x : Float) : List Decimal :=
  let v := Magnitude.ofFloat x
  let short := (List.range 17).flatMap fun n => (v.neighbours (n + 1)).map (dropCarry (n + 1))
  (short ++ [v.exact]).map fun (digits, power) => ⟨signBit x, digits, power⟩

/-- The shortest decimal that reads back as this finite number, and the nearest of those. -/
def shortest (x : Float) : Decimal :=
  if x == 0.0 then ⟨signBit x, 0, 0⟩
  else
    let tried := candidates x
    (tried.find? fun d => d.toFloat.toBits == x.toBits).getD (tried.getLastD ⟨signBit x, 0, 0⟩)

/-- A finite number that is not negative with exactly one decimal place. -/
def tenths (x : Float) : Decimal :=
  ⟨false, (Magnitude.ofFloat x).roundTo (-1), -1⟩

end Decimal

/-- The numeral that a binary64 number is written with. -/
def Numeral.ofFloat (x : Float) : Numeral :=
  if x.isNaN then .undefined
  else if x.isInf then .infinity (signBit x)
  else .decimal (Decimal.shortest x)

/-- The text of a binary64 number: its shortest decimal in plain notation. -/
def floatText (x : Float) : List Char :=
  (Numeral.ofFloat x).plain

end SpeedupStudy
