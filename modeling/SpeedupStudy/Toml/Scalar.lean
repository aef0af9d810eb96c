/-
# Numbers and dates of TOML

Digits may have single underscores between them. Decimal integers have a sign but no leading
zero, and integers in base sixteen, eight and two have neither a sign nor a value beyond 63 bits.
Dates and times of day must exist in the calendar. Each reader takes the longest start that is of
its form and gives what follows.
-/

import SpeedupStudy.Decimal.Numeral
import SpeedupStudy.Document.Value
import SpeedupStudy.Toml.Quoted

namespace SpeedupStudy

namespace Toml

/-- Digits at the start, without the underscores between them. -/
def moreDigits (isDigit : Char → Bool) : List Char → Option (List Char × List Char)
  | '_' :: c :: rest =>
    if isDigit c then (moreDigits isDigit rest).map (prepend c) else none
  | c :: rest =>
    if c = '_' then none
    else if isDigit c then (moreDigits isDigit rest).map (prepend c)
    else some ([], c :: rest)
  | [] => some ([], [])

/-- At least one digit, with no underscore before it. -/
def someDigits (isDigit : Char → Bool) : List Char → Option (List Char × List Char)
  | c :: rest => if isDigit c then (moreDigits isDigit rest).map (prepend c) else none
  | [] => none

/-- The digits of a decimal integer: zero alone, or digits that do not start with zero. -/
def readWhole : List Char → Option (List Char × List Char)
  | '0' :: rest => some (['0'], rest)
  | s => someDigits Char.isDigit s

/-- The fraction of a number, with its point, or nothing. -/
def readFraction : List Char → Option (List Char × List Char)
  | '.' :: rest => (someDigits Char.isDigit rest).map (prepend '.')
  | rest => some ([], rest)

/-- The exponent of a number, with its letter, or nothing. -/
def readExponent : List Char → Option (List Char × List Char)
  | [] => some ([], [])
  | c :: rest =>
    if c = 'e' || c = 'E' then
      let (negative, digits) := Decimal.splitSign rest
      (someDigits Char.isDigit digits).map fun (digits, rest) =>
        (c :: (if negative then '-' :: digits else digits), rest)
    else some ([], c :: rest)

/-- The words for an infinity and the undefined number, after their sign. -/
def readSpecial (negative : Bool) : List Char → Option (Value × List Char)
  | 'i' :: 'n' :: 'f' :: rest => some (.real (Numeral.infinity negative).toFloat, rest)
  | 'n' :: 'a' :: 'n' :: rest => some (.real Numeral.undefined.toFloat, rest)
  | _ => none

/-- A decimal number after its sign: an integer of 64 bits, or a binary64 number if it has a
fraction or an exponent. A number that rounds to plus infinity is refused. -/
def readDecimal (negative : Bool) (s : List Char) : Option (Value × List Char) := do
  let (whole, rest) ← readWhole s
  let (fraction, rest) ← readFraction rest
  let (exponent, rest) ← readExponent rest
  if fraction.isEmpty && exponent.isEmpty then
    let magnitude : Int := Decimal.ofDigits whole
    let n := if negative then -magnitude else magnitude
    if Int64.minValue.toInt ≤ n && n ≤ Int64.maxValue.toInt then some (.integer n, rest) else none
  else
    let size := (readFloat? (whole ++ fraction ++ exponent)).getD 0.0
    if size.isInf && !negative then none
    else some (.real (if negative then -size else size), rest)

/-- An integer in a base below ten or in base sixteen, after the letter of the base. -/
def readBased (base : Nat) (s : List Char) : Option (Value × List Char) := do
  let value? (c : Char) := (Text.hexValue? c).filter (· < base)
  let (digits, rest) ← someDigits (fun c => (value? c).isSome) s
  let n := digits.foldl (fun n c => base * n + (value? c).getD 0) 0
  if n ≤ Int64.maxValue.toInt then some (.integer n, rest) else none

/-- A number. -/
def readNumber : List Char → Option (Value × List Char)
  | '0' :: 'x' :: rest => readBased 16 rest
  | '0' :: 'o' :: rest => readBased 8 rest
  | '0' :: 'b' :: rest => readBased 2 rest
  | s =>
    let (negative, rest) := Decimal.splitSign s
    (readSpecial negative rest).or (readDecimal negative rest)

/-- A number with exactly so many digits, if it lies in a range. -/
def readFixed (width low high : Nat) (s : List Char) : Option (Nat × List Char) :=
  let digits := s.take width
  let n := Decimal.ofDigits digits
  if digits.length = width && digits.all Char.isDigit && low ≤ n && n ≤ high then
    some (n, s.drop width)
  else none

/-- What follows one given character. -/
def skip? (c : Char) : List Char → Option (List Char)
  | first :: rest => if first = c then some rest else none
  | [] => none

/-- The number of days of a month. -/
def daysOfMonth (year month : Nat) : Nat :=
  if month = 2 then
    if year % 4 = 0 && (year % 100 ≠ 0 || year % 400 = 0) then 29 else 28
  else if month = 4 || month = 6 || month = 9 || month = 11 then 30
  else 31

/-- What follows a date. -/
def skipDate? (s : List Char) : Option (List Char) := do
  let (year, rest) ← readFixed 4 0 9999 s
  let (month, rest) ← readFixed 2 1 12 (← skip? '-' rest)
  let (_, rest) ← readFixed 2 1 (daysOfMonth year month) (← skip? '-' rest)
  some rest

/-- What follows the fraction of a second, if there is one. -/
def skipFraction : List Char → List Char
  | '.' :: c :: rest => if c.isDigit then rest.dropWhile Char.isDigit else '.' :: c :: rest
  | s => s

/-- What follows a time of day. The last minute of a day may have a leap second. -/
def skipTime? (s : List Char) : Option (List Char) := do
  let (_, rest) ← readFixed 2 0 23 s
  let (_, rest) ← readFixed 2 0 59 (← skip? ':' rest)
  let (_, rest) ← readFixed 2 0 60 (← skip? ':' rest)
  some (skipFraction rest)

/-- What follows a distance in hours and minutes. -/
def skipDistance? (s : List Char) : Option (List Char) := do
  let (_, rest) ← readFixed 2 0 23 s
  let (_, rest) ← readFixed 2 0 59 (← skip? ':' rest)
  some rest

/-- What follows the distance from the time of Greenwich, if there is one. -/
def skipOffset? : List Char → Option (List Char)
  | c :: rest =>
    if c = 'Z' || c = 'z' then some rest
    else if c = '+' || c = '-' then skipDistance? rest
    else some (c :: rest)
  | [] => some []

/-- What follows the time of day and the offset after a date, if there are any. -/
def skipTimeOfDate? : List Char → Option (List Char)
  | c :: rest =>
    if c = 'T' || c = 't' || c = ' ' then
      match skipTime? rest with
      | some rest => skipOffset? rest
      | none => some (c :: rest)
    else some (c :: rest)
  | [] => some []

/-- A date, a time of day or both. -/
def readDate (s : List Char) : Option (Value × List Char) :=
  (((skipDate? s).bind skipTimeOfDate?).or (skipTime? s)).map fun rest =>
    (.date (String.ofList (s.take (s.length - rest.length))), rest)

end Toml

end SpeedupStudy
