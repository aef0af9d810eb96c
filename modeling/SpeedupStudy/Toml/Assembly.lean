/-
# Putting TOML tables together

A TOML document fills its tables piece by piece: a dotted name makes the tables on its way, and so
does a header. A table is defined at one place only, so each table remembers how it came about.
Dotted names add to tables that dotted names made, and a header opens a table once, which may have
been implied by headers of tables inside it.
-/

import SpeedupStudy.Document.Value

namespace SpeedupStudy

namespace Toml

/-- How a table came about. -/
inductive Origin where
  /-- Its own header opened it. -/
  | header
  /-- The header of a table inside it made it. -/
  | implied
  /-- A dotted name made it. -/
  | dotted
deriving DecidableEq, Repr

/-- What a name stands for in a table under construction. The tables of a list that headers fill
are kept latest first. -/
inductive Entry where
  | value (v : Value)
  | table (origin : Origin) (entries : List (String × Entry))
  | tables (latestFirst : List (List (String × Entry)))

/-- The entries of a table under construction, in order. -/
abbrev Entries := List (String × Entry)

/-- A name with dots: the tables on its way, and the name in the last of them. -/
structure Key where
  above : List String
  last : String
deriving DecidableEq, Repr

/-- A key and its value. -/
structure Pair where
  key : Key
  value : Value

/-- The header of a section. -/
inductive Header where
  /-- The section is a table. -/
  | table (key : Key)
  /-- The section is the next table of a list. -/
  | item (key : Key)

/-- A header with the pairs below it. -/
structure Section where
  header : Header
  pairs : List Pair

/-- A document as written: the pairs before the first header, and the sections. -/
structure Outline where
  pairs : List Pair := []
  sections : List Section := []

namespace Entries

/-- Put an entry in place of the one of its name, or at the end. -/
def set (name : String) (entry : Entry) : Entries → Entries
  | [] => [(name, entry)]
  | (key, old) :: rest =>
    if key = name then (key, entry) :: rest else (key, old) :: set name entry rest

/-- Put a value below the tables of a dotted name. -/
def insertBelow (name : String) (v : Value) : List String → Entries → Option Entries
  | [], entries => if (entries.lookup name).isSome then none else some (set name (.value v) entries)
  | first :: rest, entries =>
    match entries.lookup first with
    | none => (insertBelow name v rest []).map fun inner => set first (.table .dotted inner) entries
    | some (.table origin inner) =>
      if origin = .header || (rest.isEmpty && origin = .implied) then none
      else (insertBelow name v rest inner).map fun inner =>
        set first (.table origin inner) entries
    | some (.tables (latest :: older)) =>
      if rest.isEmpty then none
      else (insertBelow name v rest latest).map fun latest =>
        set first (.tables (latest :: older)) entries
    | _ => none

/-- Put a pair into a table. -/
def insert (entries : Entries) (pair : Pair) : Option Entries :=
  insertBelow pair.key.last pair.value pair.key.above entries

/-- Put pairs into a table, in order. -/
def insertAll (pairs : List Pair) (entries : Entries) : Option Entries :=
  pairs.foldlM insert entries

/-- Change the table that the names of a header lead to. In a list of tables that is the latest
one, and a missing table is made. -/
def changeAt (change : Entries → Option Entries) : List String → Entries → Option Entries
  | [], entries => change entries
  | first :: rest, entries =>
    match entries.lookup first with
    | none => (changeAt change rest []).map fun inner => set first (.table .implied inner) entries
    | some (.table origin inner) =>
      (changeAt change rest inner).map fun inner => set first (.table origin inner) entries
    | some (.tables (latest :: older)) =>
      (changeAt change rest latest).map fun latest => set first (.tables (latest :: older)) entries
    | _ => none

/-- Fill a table that a header opens. -/
def openTable (name : String) (pairs : List Pair) (entries : Entries) : Option Entries :=
  match entries.lookup name with
  | none => (insertAll pairs []).map fun inner => set name (.table .header inner) entries
  | some (.table .implied inner) =>
    (insertAll pairs inner).map fun inner => set name (.table .header inner) entries
  | _ => none

/-- Fill the next table of a list. -/
def openItem (name : String) (pairs : List Pair) (entries : Entries) : Option Entries :=
  match entries.lookup name with
  | none => (insertAll pairs []).map fun item => set name (.tables [item]) entries
  | some (.tables items) =>
    (insertAll pairs []).map fun item => set name (.tables (item :: items)) entries
  | _ => none

/-- Add a section to a document. -/
def addSection (entries : Entries) (part : Section) : Option Entries :=
  match part.header with
  | .table key => changeAt (openTable key.last part.pairs) key.above entries
  | .item key => changeAt (openItem key.last part.pairs) key.above entries

end Entries

mutual

/-- The finished value of an entry. -/
def Entry.toValue : Entry → Value
  | .value v => v
  | .table _ entries => .table (fieldsOf entries)
  | .tables latestFirst => .list (itemsOf latestFirst).reverse

/-- The fields of a finished table. -/
def fieldsOf : List (String × Entry) → List (String × Value)
  | [] => []
  | (name, entry) :: rest => (name, entry.toValue) :: fieldsOf rest

/-- The finished tables of a list. -/
def itemsOf : List (List (String × Entry)) → List Value
  | [] => []
  | entries :: rest => .table (fieldsOf entries) :: itemsOf rest

end

/-- The table that some pairs make, unless two of them define one name. -/
def tableOfPairs? (pairs : List Pair) : Option Value :=
  (Entries.insertAll pairs []).map fun entries => .table (fieldsOf entries)

/-- The document that an outline describes, unless it defines something twice. -/
def Outline.toValue? (outline : Outline) : Option Value :=
  ((Entries.insertAll outline.pairs []).bind fun entries =>
    outline.sections.foldlM Entries.addSection entries).map fun entries => .table (fieldsOf entries)

end Toml

end SpeedupStudy
