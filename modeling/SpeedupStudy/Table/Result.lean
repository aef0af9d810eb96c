/-
# Result tables

A result table has a record for each run: what it is, and its speedup on every core or their sum.
The reader finds the columns by their names and takes values in either form; of the columns with one
name the first counts. It reports the first record that is at fault by its number, where the header
is number 1 and empty lines do not count.
-/

import SpeedupStudy.Collection.Basic
import SpeedupStudy.Normalization

namespace SpeedupStudy

/-- The row of a result table for a scored run. -/
def Measurement.ofRow (row : Row) : Measurement :=
  ⟨row.run.method, row.run.mode, row.run.config, row.run.runBase, row.sum⟩

namespace ResultTable

/-- The name of the column of methods. -/
def methodColumn : String := "method"

/-- The name of the column of modes. -/
def modeColumn : String := "run_mode"

/-- The name of the column of configurations. -/
def configColumn : String := "config"

/-- The name of the column of run bases. -/
def runBaseColumn : String := "run_base"

/-- The name of the column of sums. -/
def sumColumn : String := "sum"

/-- The start of the names of the columns of cores. -/
def coreColumn : String := "core"

/-- A number in a table. -/
def number (x : Float) : String :=
  String.ofList (floatText x)

/-- The names of the columns that tell what a run is. -/
def keyColumns : List String :=
  [methodColumn, modeColumn, configColumn, runBaseColumn]

/-- The names of the columns. -/
def header (columns : ValueColumns) (coreCount : Nat) : List String :=
  keyColumns ++
    match columns with
    | .perCore => (List.range coreCount).map fun core => coreColumn ++ toString core
    | .sum => [sumColumn]

/-- The fields of a row. -/
def record (columns : ValueColumns) (row : Row) : List String :=
  [row.run.method, row.run.mode.name, row.run.config, row.run.runBase] ++
    match columns with
    | .perCore => row.speedup.perCore.map number
    | .sum => [number row.sum]

/-- The text of the result table of a pass, which ends in the first row that has not as many
speedups as the machine has cores. -/
def render (columns : ValueColumns) (output : Collection) : Bytes × Option Csv.LengthMismatch :=
  Csv.render <|
    (header columns output.coreCount :: output.rows.map (record columns)).map fun fields =>
      fields.map Utf8.encode

/-- Whether the names of the columns of a table can be listed. -/
def canListHeader (columns : ValueColumns) (coreCount : Nat) : Bool :=
  columns == .sum || fitsInMemory textSize (keyColumns.length + coreCount)

/-- The text of the result table of a pass, unless memory cannot list its columns. -/
def render? (columns : ValueColumns) (output : Collection) :
    Except Abort (Bytes × Option Csv.LengthMismatch) :=
  if canListHeader columns output.coreCount then .ok (render columns output)
  else .error .capacityOverflow

/-- Where a table has the fields of a row. -/
structure Columns where
  method : Nat
  mode : Nat
  config : Nat
  runBase : Nat
  values : List Nat
deriving DecidableEq, Repr

namespace Columns

/-- The first column of a name. -/
def find (header : List String) (name : String) : Except InputFault Nat :=
  match header.idxOf? name with
  | some column => .ok column
  | none => .error (.missingColumn name)

/-- The columns of values: the one of sums, or else those of cores. -/
def findValues (header : List String) : Except InputFault (List Nat) :=
  match header.idxOf? sumColumn with
  | some column => .ok [column]
  | none =>
    let columns := (List.range header.length).filter fun column =>
      coreColumn.toList.isPrefixOf (header[column]?.getD "").toList
    if columns.isEmpty then .error .noValueColumns else .ok columns

/-- The columns of a table with this header. -/
def ofHeader (header : List String) : Except InputFault Columns := do
  return ⟨← find header methodColumn, ← find header modeColumn, ← find header configColumn,
    ← find header runBaseColumn, ← findValues header⟩

/-- The field of a record in a column. -/
def field (record : List String) (column : Nat) : String :=
  record[column]?.getD ""

/-- The sum of the values of a record, from left to right after some others. -/
def sumValues (line : Nat) (record : List String) : Float → List Nat → Except InputFault Float
  | sum, [] => .ok sum
  | sum, column :: rest =>
    match readFloat? (Text.trim (field record column).toList) with
    | none => .error (.invalidValue line (field record column))
    | some value => sumValues line record (sum + value) rest

/-- The row of a record. -/
def row (columns : Columns) (line : Nat) (record : List String) : Except InputFault Measurement :=
  match Mode.ofName? (field record columns.mode) with
  | none => .error (.unknownMode line (field record columns.mode))
  | some mode =>
    (sumValues line record 0.0 columns.values).map fun sum =>
      ⟨field record columns.method, mode, field record columns.config,
        field record columns.runBase, sum⟩

end Columns

/-- The texts of a record, if all its fields are texts. -/
def texts (record : List Bytes) : Except Failure (List String) :=
  match record.mapM Utf8.decode? with
  | some fields => .ok fields
  | none => .error (.records .notText)

/-- The rows of the records after a header, the first of which begins in a line. -/
def readRecords (columns : Columns) (width : Nat) :
    Nat → List (List Bytes) → Except Failure (List Measurement)
  | _, [] => .ok []
  | line, record :: rest =>
    if record.length ≠ width then .error (.records (.lengthMismatch ⟨width, record.length⟩))
    else do
      let fields ← texts record
      let row ← (columns.row line fields).mapError .input
      return row :: (← readRecords columns width (line + 1) rest)

/-- Read a result table. A text without any record has an empty header. -/
def read (text : Bytes) : Except Failure (List Measurement) := do
  let records := Csv.parse text
  let header ← texts (records.headD [])
  let columns ← (Columns.ofHeader header).mapError .input
  readRecords columns header.length 2 records.tail

variable {m : Type → Type} [Monad m] [Files m]

/-- Write the text of a table to a file, making the directories above it. A text that breaks off is
written as far as it goes. -/
def saveText (path : Path) (text : Bytes × Option Csv.LengthMismatch) : Attempt m Unit := do
  Attempt.files (Files.writeWithParents path text.1)
  Attempt.refuse (fun mismatch => .records (.lengthMismatch mismatch)) text.2

/-- Write the result table of a pass to a file. The file is made before the text, so it is empty
where there is no text. -/
def save (columns : ValueColumns) (output : Collection) (path : Path) : Attempt m Unit :=
  match render? columns output with
  | .ok text => saveText path text
  | .error event => do
    saveText path ([], none)
    throw (.aborted event)

/-- Read a result table from a file. A directory can be opened like a file but not read. -/
def load (path : Path) : Attempt m (List Measurement) := do
  match ← ExceptT.lift (Files.read path) with
  | .error .isADirectory => throw (.records (.unreadable .isADirectory))
  | .error cause => throw (.io cause)
  | .ok text => ExceptT.mk (pure (read text))

end ResultTable

end SpeedupStudy
