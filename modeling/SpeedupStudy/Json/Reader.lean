/-
# Reading JSON

The reader accepts the JSON grammar and nothing else: no comments, no comma before a closing
bracket, no byte order mark, no leading zeros. Integers without fraction and exponent are read
exactly, all other numbers as binary64. A string may hold an escape for half of a surrogate
pair; it is well-formed, but a value that cannot be read as text.
-/

import SpeedupStudy.Decimal.Numeral
import SpeedupStudy.Document.Format
import SpeedupStudy.Text.Hexadecimal

namespace SpeedupStudy

namespace Json

/-- The four characters that may stand between tokens. -/
def isSpace (c : Char) : Bool :=
  c = ' ' || c = '\t' || c = '\n' || c = '\r'

/-- Drop the space before a token. -/
def skipSpace (s : List Char) : List Char :=
  s.dropWhile isSpace

/-- The character that a letter after a backslash stands for. -/
def escaped? (c : Char) : Option Char :=
  if c = '"' || c = '\\' || c = '/' then some c
  else if c = 'b' then some (Char.ofNat 8)
  else if c = 'f' then some (Char.ofNat 12)
  else if c = 'n' then some '\n'
  else if c = 'r' then some '\r'
  else if c = 't' then some '\t'
  else none

/-- The units of a string after its opening quote, and what follows its closing quote. A
character is a unit, and so is the number of a `\u` escape. -/
def units : List Char → Option (List (Nat × Bool) × List Char)
  | '"' :: rest => some ([], rest)
  | '\\' :: 'u' :: a :: b :: c :: d :: rest => do
    let unit ← Text.hexNumber? [a, b, c, d]
    let (later, rest) ← units rest
    some ((unit, true) :: later, rest)
  | '\\' :: c :: rest => do
    let unit ← escaped? c
    let (later, rest) ← units rest
    some ((unit.toNat, false) :: later, rest)
  | c :: rest =>
    if c.toNat < 32 then none
    else do
      let (later, rest) ← units rest
      some ((c.toNat, false) :: later, rest)
  | [] => none

/-- The text of the units of a string. Two escapes for the halves of a surrogate pair make one
character, and a half without its other half makes none. -/
def textOfUnits? : List (Nat × Bool) → Option (List Char)
  | [] => some []
  | (high, true) :: (low, true) :: rest =>
    if 0xD800 ≤ high && high < 0xDC00 && 0xDC00 ≤ low && low < 0xE000 then
      (textOfUnits? rest).map
        (Char.ofNat (0x10000 + (high - 0xD800) * 0x400 + (low - 0xDC00)) :: ·)
    else if 0xD800 ≤ high && high < 0xE000 then none
    else (textOfUnits? ((low, true) :: rest)).map (Char.ofNat high :: ·)
  | (unit, _) :: rest =>
    if 0xD800 ≤ unit && unit < 0xE000 then none
    else (textOfUnits? rest).map (Char.ofNat unit :: ·)

/-- A string after its opening quote: its text, if it has one, and what follows. -/
def readString (s : List Char) : Option (Option String × List Char) :=
  (units s).map fun (units, rest) => ((textOfUnits? units).map String.ofList, rest)

/-- The digits at the start of a list, at least one. -/
def someDigits (s : List Char) : Option (List Char × List Char) :=
  let (digits, rest) := Decimal.spanDigits s
  if digits.isEmpty then none else some (digits, rest)

/-- The fraction of a number, with its point, or nothing. -/
def readFraction : List Char → Option (List Char × List Char)
  | '.' :: rest => (someDigits rest).map fun (digits, rest) => ('.' :: digits, rest)
  | rest => some ([], rest)

/-- The exponent of a number, with its letter, or nothing. -/
def readExponent : List Char → Option (List Char × List Char)
  | [] => some ([], [])
  | c :: rest =>
    if c = 'e' || c = 'E' then
      let (sign, rest) := match rest with
        | '+' :: rest => (['+'], rest)
        | '-' :: rest => (['-'], rest)
        | rest => ([], rest)
      (someDigits rest).map fun (digits, rest) => (c :: (sign ++ digits), rest)
    else some ([], c :: rest)

/-- A number: an integer that keeps its value if it is written like one. -/
def readNumber (s : List Char) : Option (Value × List Char) := do
  let (negative, body) := match s with
    | '-' :: rest => (true, rest)
    | s => (false, s)
  let (whole, rest) ← someDigits body
  let (fraction, rest) ← readFraction rest
  let (exponent, rest) ← readExponent rest
  if whole.head? = some '0' && whole.length ≠ 1 then none
  else if fraction.isEmpty && exponent.isEmpty && !(negative && whole = ['0']) then
    let magnitude : Int := Decimal.ofDigits whole
    some (.integer (if negative then -magnitude else magnitude), rest)
  else
    let x := (readFloat? (whole ++ fraction ++ exponent)).getD 0.0
    some (.real (if negative then -x else x), rest)

/-- The table with these fields, where a name may be no text. -/
def tableOf (fields : List (Option String × Value)) : Value :=
  match fields.mapM fun (name, value) => name.map (·, value) with
  | some fields => .table fields
  | none => .unreadable

mutual

/-- A value and what follows it. Every call takes at least one character, so the length of the
text bounds the number of steps. -/
def readValue : Nat → List Char → Option (Value × List Char)
  | 0, _ => none
  | steps + 1, s =>
    match skipSpace s with
    | 'n' :: 'u' :: 'l' :: 'l' :: rest => some (.null, rest)
    | 't' :: 'r' :: 'u' :: 'e' :: rest => some (.bool true, rest)
    | 'f' :: 'a' :: 'l' :: 's' :: 'e' :: rest => some (.bool false, rest)
    | '"' :: rest => (readString rest).map fun (text, rest) =>
      ((text.map Value.text).getD .unreadable, rest)
    | '[' :: rest =>
      match skipSpace rest with
      | ']' :: rest => some (.list [], rest)
      | _ => (readItems steps rest).map fun (items, rest) => (.list items, rest)
    | '\x7b' :: rest =>
      match skipSpace rest with
      | '\x7d' :: rest => some (.table [], rest)
      | _ => (readFields steps rest).map fun (fields, rest) => (tableOf fields, rest)
    | rest => readNumber rest

/-- The items of a list that has some, and what follows its closing bracket. -/
def readItems : Nat → List Char → Option (List Value × List Char)
  | 0, _ => none
  | steps + 1, s => do
    let (item, rest) ← readValue steps s
    match skipSpace rest with
    | ',' :: rest =>
      let (items, rest) ← readItems steps rest
      some (item :: items, rest)
    | ']' :: rest => some ([item], rest)
    | _ => none

/-- The fields of a table that has some, and what follows its closing brace. -/
def readFields : Nat → List Char → Option (List (Option String × Value) × List Char)
  | 0, _ => none
  | steps + 1, s =>
    match skipSpace s with
    | '"' :: rest => do
      let (name, rest) ← readString rest
      match skipSpace rest with
      | ':' :: rest =>
        let (value, rest) ← readValue steps rest
        match skipSpace rest with
        | ',' :: rest =>
          let (fields, rest) ← readFields steps rest
          some ((name, value) :: fields, rest)
        | '\x7d' :: rest => some ([(name, value)], rest)
        | _ => none
      | _ => none
    | _ => none

end

/-- Whether a value is null. -/
def isNull : Value → Bool
  | .null => true
  | _ => false

/-- What stands for a structure: null may follow the name of a choice, and a list may not be longer
than its structure. -/
def format : DocumentFormat where
  isEmptyChoice := isNull
  allowsSpareItems := false

/-- The document that a text holds, with nothing but space around it. -/
def parse? (text : String) : Option Value :=
  let s := text.toList
  match readValue (s.length + 1) s with
  | some (value, rest) => if (skipSpace rest).isEmpty then some value else none
  | none => none

end Json

end SpeedupStudy
