/-
# Reading structures from documents

A structure is read from a table by the names of its fields, or from a list by their positions.
Unknown names are passed over, and a known name may occur once. An optional field may be missing
from a table or null, but in a list every field without a default has its place. Whether a list
may be longer than the structure is up to the format. Every reader here answers nothing where a
value is not of its form.
-/

import SpeedupStudy.Decimal.Numeral
import SpeedupStudy.Document.Format

namespace SpeedupStudy

/-- The values found for the fields of a structure, in the order of the fields. -/
structure Fields where
  /-- Whether the values come from a list. -/
  positional : Bool
  found : List (Option Value)

namespace Value

/-- The value of a field of a table: nothing where the name is repeated. -/
def fieldOf? (fields : List (String × Value)) (name : String) : Option (Option Value) :=
  match fields.filter (·.1 == name) with
  | [] => some none
  | [(_, value)] => some (some value)
  | _ => none

/-- The fields of a structure. A date may stand for a table without any known field. -/
def fields? (format : DocumentFormat) (names : List String) : Value → Option Fields
  | table fields => (names.mapM (fieldOf? fields)).map (⟨false, ·⟩)
  | list items =>
    if items.length ≤ names.length || format.allowsSpareItems then
      let used := items.take names.length
      some ⟨true, used.map some ++ List.replicate (names.length - used.length) none⟩
    else none
  | date _ => some ⟨false, List.replicate names.length none⟩
  | _ => none

/-- A truth value. -/
def bool? : Value → Option Bool
  | bool b => some b
  | _ => none

/-- A count from 0 to `maxCount`. -/
def count? : Value → Option Nat
  | integer n => if 0 ≤ n && n ≤ maxCount then some n.toNat else none
  | _ => none

/-- A binary64 number; integers are rounded to the nearest one. -/
def float? : Value → Option Float
  | real x => some x
  | integer n => some (Float.ofInt n)
  | _ => none

/-- A text. -/
def text? : Value → Option String
  | text s => some s
  | _ => none

/-- A list whose items are all of one form. -/
def list? {α : Type} (item? : Value → Option α) : Value → Option (List α)
  | list items => items.mapM item?
  | _ => none

/-- A table whose values are all of one form. -/
def table? {α : Type} (item? : Value → Option α) : Value → Option (List (String × α))
  | table fields => fields.mapM fun (name, value) => (item? value).map (name, ·)
  | _ => none

/-- One of some named choices: its name, or a table that has nothing but the name and what the
format takes for empty. -/
def choice? {α : Type} (format : DocumentFormat) (ofName? : String → Option α) :
    Value → Option α
  | text name => ofName? name
  | table [(name, value)] => if format.isEmptyChoice value then ofName? name else none
  | _ => none

end Value

namespace Fields

/-- What was found for a field. -/
def get (fields : Fields) (index : Nat) : Option Value :=
  fields.found[index]?.join

/-- A field that must be there. -/
def required? {α : Type} (fields : Fields) (index : Nat) (read? : Value → Option α) :
    Option α :=
  (fields.get index).bind read?

/-- A field that may be missing from a table, or null. -/
def optional? {α : Type} (fields : Fields) (index : Nat) (read? : Value → Option α) :
    Option (Option α) :=
  match fields.get index with
  | none => if fields.positional then none else some none
  | some .null => some none
  | some value => (read? value).map some

/-- A field with a default. -/
def default? {α : Type} (fields : Fields) (index : Nat) (read? : Value → Option α)
    (default : α) : Option α :=
  match fields.get index with
  | none => some default
  | some value => read? value

end Fields

end SpeedupStudy
