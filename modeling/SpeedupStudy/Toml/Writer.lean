/-
# Writing TOML

A document is a table. Its plain values come first, one to a line, and then its tables as
sections. Lists of two or more items take a line for each of them. Integers of the format have 64
bits with a sign, so a larger one cannot be written, and neither can a table inside a section.
-/

import SpeedupStudy.Decimal.Shortest
import SpeedupStudy.Document.Value
import SpeedupStudy.Toml.Quoted

namespace SpeedupStudy

namespace Toml

/-- The characters of names that need no quotes. -/
def isBare (c : Char) : Bool :=
  c.isAlphanum || c = '-' || c = '_'

/-- A name. -/
def nameText (name : String) : List Char :=
  let s := name.toList
  if ! s.isEmpty && s.all isBare then s else quote s (nameQuotation s)

/-- A text value. -/
def textText (value : String) : List Char :=
  let s := value.toList
  quote s (valueQuotation s)

/-- A binary64 number. A number without a fraction has one zero after its point, which keeps it
apart from an integer. -/
def realText (x : Float) : List Char :=
  if x.isNaN then "nan".toList
  else
    let plain := floatText x
    if x.isInf || plain.contains '.' then plain else plain ++ ".0".toList

/-- Whether an integer has a place in the format. -/
def fitsInteger (n : Int) : Bool :=
  Int64.minValue.toInt ≤ n && n ≤ Int64.maxValue.toInt

/-- A value that is neither a list nor a table, if the format has it. -/
def scalarText? : Value → Option (List Char)
  | .bool b => some (if b then "true" else "false").toList
  | .integer n => if fitsInteger n then some (toString n).toList else none
  | .real x => some (realText x)
  | .text s => some (textText s)
  | .date lexeme => some lexeme.toList
  | _ => none

/-- A list whose items have these texts. -/
def listText : List (List Char) → List Char
  | [] => ['[', ']']
  | [item] => '[' :: (item ++ [']'])
  | items =>
    ['[', '\n'] ++ (items.flatMap fun item => "    ".toList ++ item ++ [',', '\n']) ++ [']']

/-- A value that is no table, if the format has it. -/
def valueText? : Value → Option (List Char)
  | .list items => (items.mapM scalarText?).map listText
  | value => scalarText? value

/-- The line of a name and its value. -/
def line? (field : String × Value) : Option (List Char) :=
  (valueText? field.2).map fun text => nameText field.1 ++ " = ".toList ++ text ++ ['\n']

/-- The lines of some values, in order. -/
def lines? (fields : List (String × Value)) : Option (List Char) :=
  (fields.mapM line?).map List.flatten

/-- A section: its name in brackets and the lines of its values. -/
def sectionText? (name : String) (fields : List (String × Value)) : Option (List Char) :=
  (lines? fields).map fun text => '[' :: (nameText name ++ [']', '\n'] ++ text)

/-- The fields that are tables, with their names. -/
def innerTables (fields : List (String × Value)) : List (String × List (String × Value)) :=
  fields.filterMap fun
    | (name, .table inner) => some (name, inner)
    | _ => none

/-- The fields that are no tables. -/
def plainFields (fields : List (String × Value)) : List (String × Value) :=
  fields.filter fun
    | (_, .table _) => false
    | _ => true

/-- The text of a document, if the format has all its values. Every section but one at the very
start has an empty line before it. -/
def render? (fields : List (String × Value)) : Option String := do
  let head ← lines? (plainFields fields)
  let bodies ← (innerTables fields).mapM fun (name, inner) => sectionText? name inner
  let parts := if head.isEmpty then bodies else head :: bodies
  some (String.ofList (Text.join '\n' parts))

end Toml

end SpeedupStudy
