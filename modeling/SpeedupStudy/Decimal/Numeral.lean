/-
# Decimal numerals

The numbers of logs, tables and catalogs are decimal text. A `Decimal` is a sign, a natural
number and a power of ten; a `Numeral` adds the two infinities and the undefined value. Reading
accepts an optional sign, digits with at most one point among them, and an optional exponent, or
one of the words `inf`, `infinity` and `nan` in any case. `Numeral.toFloat` is the binary64
number nearest to the value, and counts are read as whole numbers below a limit.
-/

namespace SpeedupStudy

/-- The number `±digits · 10 ^ exponent`. -/
structure Decimal where
  negative : Bool
  digits : Nat
  exponent : Int
deriving DecidableEq, Repr

/-- What a numeral denotes: a decimal, an infinity or no number. -/
inductive Numeral where
  | decimal (value : Decimal)
  | infinity (negative : Bool)
  | undefined
deriving DecidableEq, Repr

namespace Decimal

/-- The value of one digit of a number in base ten or below. -/
def digitValue (c : Char) : Nat :=
  c.toNat - '0'.toNat

/-- The natural number that a list of decimal digits denotes. -/
def ofDigits (s : List Char) : Nat :=
  s.foldl (fun value c => 10 * value + digitValue c) 0

/-- The digits at the start and what follows them. -/
def spanDigits (s : List Char) : List Char × List Char :=
  (s.takeWhile Char.isDigit, s.dropWhile Char.isDigit)

/-- Split off a leading sign; the flag says whether it is a minus. -/
def splitSign : List Char → Bool × List Char
  | '-' :: rest => (true, rest)
  | '+' :: rest => (false, rest)
  | s => (false, s)

/-- The exponent part of a numeral: nothing, or `e` or `E`, a sign and at least one digit. -/
def readExponent? : List Char → Option Int
  | [] => some 0
  | c :: rest =>
    if c = 'e' || c = 'E' then
      let (negative, digits) := splitSign rest
      if digits.isEmpty || digits.any (! ·.isDigit) then none
      else some (if negative then -(ofDigits digits : Int) else ofDigits digits)
    else none

/-- An unsigned decimal: digits with at most one point, at least one digit in all, and an
optional exponent. -/
def readUnsigned? (negative : Bool) (s : List Char) : Option Decimal :=
  let (whole, rest) := spanDigits s
  let (fraction, rest) := match rest with
    | '.' :: rest => spanDigits rest
    | rest => ([], rest)
  if whole.isEmpty && fraction.isEmpty then none
  else (readExponent? rest).map fun exponent =>
    ⟨negative, ofDigits (whole ++ fraction), exponent - fraction.length⟩

/-- The nearest number of the logical model. No binary64 number but zero is nearest to a value below
`10 ^ -325`, and a value from `10 ^ 310` on is beyond the largest one, so no power of ten beyond these
is ever formed. -/
def magnitudeToFloat (digits : Nat) (exponent : Int) : Float :=
  let size : Int := (Nat.toDigits 10 digits).length + exponent
  if digits = 0 || size < -330 then 0.0
  else if size > 320 then Float.ofScientific 1 false 400
  else Float.ofModel (Float.Model.ofScientific digits exponent)

/-- The nearest binary64 number; of two equally near ones the even one. -/
def toFloat (d : Decimal) : Float :=
  let magnitude := magnitudeToFloat d.digits d.exponent
  if d.negative then -magnitude else magnitude

/-- The digits in plain positional notation, without an exponent and without a point where
there is no fraction. -/
def plain (d : Decimal) : List Char :=
  let digits := Nat.toDigits 10 d.digits
  let body :=
    if 0 ≤ d.exponent then digits ++ List.replicate d.exponent.toNat '0'
    else
      let places := d.exponent.natAbs
      if places < digits.length then
        digits.take (digits.length - places) ++ '.' :: digits.drop (digits.length - places)
      else '0' :: '.' :: (List.replicate (places - digits.length) '0' ++ digits)
  if d.negative then '-' :: body else body

end Decimal

namespace Numeral

/-- Read a numeral; the whole text must be used up. -/
def read? (s : List Char) : Option Numeral :=
  let (negative, body) := Decimal.splitSign s
  let word := body.map Char.toLower
  if word = "inf".toList || word = "infinity".toList then some (.infinity negative)
  else if word = "nan".toList then some .undefined
  else (Decimal.readUnsigned? negative body).map .decimal

/-- The binary64 number that a numeral stands for. -/
def toFloat : Numeral → Float
  | .decimal d => d.toFloat
  | .infinity negative => if negative then -(1.0 / 0.0) else 1.0 / 0.0
  | .undefined => 0.0 / 0.0

/-- The text of a numeral in plain notation. -/
def plain : Numeral → List Char
  | .decimal d => d.plain
  | .infinity negative => (if negative then "-inf" else "inf").toList
  | .undefined => "NaN".toList

end Numeral

/-- The largest count a log or an option can hold, `2 ^ 64 - 1`. -/
def maxCount : Nat := UInt64.size - 1

/-- Read a count: digits after an optional plus sign, with a value of at most `maxCount`. -/
def readCount? (s : List Char) : Option Nat :=
  let digits := match s with
    | '+' :: rest => rest
    | s => s
  if digits.isEmpty || digits.any (! ·.isDigit) then none
  else
    let value := Decimal.ofDigits digits
    if value ≤ maxCount then some value else none

/-- Read a binary64 number from decimal text. -/
def readFloat? (s : List Char) : Option Float :=
  (Numeral.read? s).map Numeral.toFloat

end SpeedupStudy
