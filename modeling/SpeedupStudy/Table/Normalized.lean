/-
# Normalized tables

A normalized table has a record for each group with its geometric mean. The mean of a group without
defined values is written as an undefined number.
-/

import SpeedupStudy.Table.Result

namespace SpeedupStudy

namespace NormalizedTable

/-- The names of the columns. -/
def header : List String :=
  ["method", "mode3", "config", "geomean_normalized_sum"]

/-- The fields of a group. -/
def record (group : GroupMean) : List String :=
  [group.key.method, group.key.reportClass.name, group.key.config,
    ResultTable.number (group.geomean.getD Numeral.undefined.toFloat)]

/-- The text of a normalized table. All its records have four fields. -/
def render (groups : List GroupMean) : Bytes :=
  (Csv.render ((header :: groups.map record).map fun fields => fields.map Utf8.encode)).1

/-- Write a normalized table to a file, making the directories above it. -/
def save {m : Type → Type} [Monad m] [Files m] (groups : List GroupMean) (path : Path) :
    Attempt m Unit :=
  Attempt.files (Files.writeWithParents path (render groups))

end NormalizedTable

/-- Normalize the rows of a pass. -/
def Normalization.ofRows (rows : List Row) : Normalization :=
  ofTable (rows.map Measurement.ofRow)

end SpeedupStudy
