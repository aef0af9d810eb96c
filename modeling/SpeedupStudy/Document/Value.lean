/-
# Structured documents

Configurations, catalogs and reports are exchanged as documents: tables of named values. One
type of values serves both formats, so a structure is turned into a document and back once, and
each format has one writer and one reader.
-/

namespace SpeedupStudy

/-- A value of a document. -/
inductive Value where
  | null
  | bool (value : Bool)
  | integer (value : Int)
  | real (value : Float)
  | text (value : String)
  /-- A date or a time of day, as it is written. -/
  | date (lexeme : String)
  | list (items : List Value)
  | table (fields : List (String × Value))
  /-- A well-formed string that is no text, as an escape in it stands for half a character, or
  a table with such a name. It may be passed over but not used. -/
  | unreadable
deriving Inhabited

namespace Value

/-- A natural number as a value. -/
def natural (n : Nat) : Value :=
  integer n

/-- The fields that are present, for tables that leave out what is absent. -/
def tableOfPresent (fields : List (String × Option Value)) : Value :=
  table (fields.filterMap fun (name, value) => value.map (name, ·))

end Value

end SpeedupStudy
