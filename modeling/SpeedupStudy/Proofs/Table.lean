/-
# Reading back a result table

The columns of a written table are found where they were written, and every number in it reads back
as itself. A row read back has the fields of its run, and its sum is taken again from left to right:
from plus zero now, which makes no difference where no speedup carries a minus sign, and elsewhere
none but to the sign of a zero.
-/

import SpeedupStudy.Proofs.Csv
import SpeedupStudy.Proofs.Decimal.RoundTrip
import SpeedupStudy.Proofs.Speedup
import SpeedupStudy.Table.Normalized

namespace SpeedupStudy

open Binary64

/-- Results with a speedup without a minus sign on each of some cores in every row. -/
structure Collection.Scored (output : Collection) : Prop where
  hasCores : 0 < output.coreCount
  length : ∀ row ∈ output.rows, row.speedup.perCore.length = output.coreCount
  unsigned : ∀ row ∈ output.rows, ∀ x ∈ row.speedup.perCore, Unsigned x

namespace ResultTable

/-- The numbers that are written for a row. -/
def values (columns : ValueColumns) (row : Row) : List Float :=
  match columns with
  | .perCore => row.speedup.perCore
  | .sum => [row.sum]

/-- The sum that a reader takes of the numbers that are written for a row. -/
def readSum (columns : ValueColumns) (row : Row) : Float :=
  match columns with
  | .perCore => row.speedup.perCore.foldl (· + ·) 0.0
  | .sum => 0.0 + row.sum

theorem readSum_eq (columns : ValueColumns) (row : Row) :
    readSum columns row = (values columns row).foldl (· + ·) 0.0 := by
  cases columns <;> rfl

/-- What is read back for a row. -/
def readBack (columns : ValueColumns) (row : Row) : Measurement :=
  { Measurement.ofRow row with sum := readSum columns row }

/-- The number of columns of numbers. -/
def valueCount (columns : ValueColumns) (coreCount : Nat) : Nat :=
  match columns with
  | .perCore => coreCount
  | .sum => 1

/-- The fields that tell what a run is. -/
def keyFields (row : Row) : List String :=
  [row.run.method, row.run.mode.name, row.run.config, row.run.runBase]

theorem record_eq (columns : ValueColumns) (row : Row) :
    record columns row = keyFields row ++ (values columns row).map number := by
  cases columns <;> rfl

theorem length_header (columns : ValueColumns) (coreCount : Nat) :
    (header columns coreCount).length = 4 + valueCount columns coreCount := by
  cases columns with
  | perCore =>
      rw [header, List.length_append, List.length_map, List.length_range]
      rfl
  | sum => rfl

theorem length_record (columns : ValueColumns) (row : Row) :
    (record columns row).length = 4 + (values columns row).length := by
  rw [record_eq, List.length_append, List.length_map]
  rfl

section Header

theorem sumColumn_not_mem_header (coreCount : Nat) : sumColumn ∉ header .perCore coreCount := by
  intro mem
  rcases List.mem_append.mp mem with key | core
  · exact absurd key (by decide)
  · obtain ⟨i, -, same⟩ := List.mem_map.mp core
    have letters := congrArg String.toList same
    rw [String.toList_append] at letters
    exact absurd (congrArg (List.take 1) letters) (by simp [coreColumn, sumColumn])

/-- The columns of cores are those after the columns that tell what a run is. -/
theorem coreColumns_header (coreCount : Nat) :
    ((List.range (header .perCore coreCount).length).filter fun column =>
      coreColumn.toList.isPrefixOf ((header .perCore coreCount)[column]?.getD "").toList) =
        List.range' 4 coreCount := by
  have keys : ∀ column ∈ List.range 4,
      coreColumn.toList.isPrefixOf ((header .perCore coreCount)[column]?.getD "").toList =
        false := by
    intro column mem
    have bound : column < keyColumns.length := List.mem_range.mp mem
    rw [header, List.getElem?_append_left bound]
    revert column
    decide
  have cores : ∀ column ∈ List.range' 4 coreCount,
      coreColumn.toList.isPrefixOf ((header .perCore coreCount)[column]?.getD "").toList := by
    intro column mem
    obtain ⟨core, bound, rfl⟩ := List.mem_range'.mp mem
    rw [header, List.getElem?_append_right (by simp [keyColumns])]
    simp [keyColumns, bound]
  have split : List.range (4 + coreCount) = List.range 4 ++ List.range' 4 coreCount := by
    rw [List.range_eq_range', List.range_eq_range', ← List.range'_append_1]
  rw [length_header, valueCount, split, List.filter_append, List.filter_eq_self.mpr cores,
    List.filter_eq_nil_iff.mpr fun column mem => by simp [keys column mem], List.nil_append]

/-- The columns of a written table are found where they were written. -/
theorem ofHeader_header (columns : ValueColumns) {coreCount : Nat} (hasCores : 0 < coreCount) :
    Columns.ofHeader (header columns coreCount) =
      .ok ⟨0, 1, 2, 3, List.range' 4 (valueCount columns coreCount)⟩ := by
  have found : Columns.findValues (header columns coreCount) =
      .ok (List.range' 4 (valueCount columns coreCount)) := by
    cases columns with
    | sum => rfl
    | perCore =>
        have absent := List.idxOf?_eq_none_iff.mpr (sumColumn_not_mem_header coreCount)
        have some : (List.range' 4 coreCount).isEmpty = false := by
          simp [Nat.ne_of_gt hasCores]
        simp [Columns.findValues, absent, coreColumns_header, valueCount, some]
  have keys (name : String) (column : Nat) (place : keyColumns.idxOf? name = some column) :
      Columns.find (header columns coreCount) name = .ok column := by
    have whole : (header columns coreCount).idxOf? name = some column := by
      rw [List.idxOf?] at place
      rw [header.eq_def, List.idxOf?, List.findIdx?_append, place]
      rfl
    rw [Columns.find, whole]
  rw [Columns.ofHeader, keys methodColumn 0 (by decide), keys modeColumn 1 (by decide),
    keys configColumn 2 (by decide), keys runBaseColumn 3 (by decide), found]
  rfl

end Header

section Fields

/-- The field after some others. -/
theorem field_append (before : List String) (text : String) (rest : List String) :
    Columns.field (before ++ text :: rest) before.length = text := by
  simp [Columns.field]

/-- Numbers in neighbouring columns are read back and added up from left to right. -/
theorem sumValues_numbers (line : Nat) (before : List String) (sum : Float) (values : List Float) :
    Columns.sumValues line (before ++ values.map number) sum
      (List.range' before.length values.length) = .ok (values.foldl (· + ·) sum) := by
  induction values generalizing before sum with
  | nil => rfl
  | cons x rest ih =>
      have text : Text.trim (number x).toList = floatText x := by
        rw [number, String.toList_ofList, trim_floatText]
      have later := ih (before ++ [number x]) (sum + x)
      rw [List.append_assoc, List.length_append] at later
      rw [List.map_cons, List.length_cons, List.range'_succ, Columns.sumValues, field_append, text,
        readFloat?_floatText]
      exact later

/-- A written record is read back in its own columns. -/
theorem row_record (columns : ValueColumns) (line : Nat) (row : Row) :
    Columns.row ⟨0, 1, 2, 3, List.range' 4 (values columns row).length⟩ line (record columns row) =
      .ok (readBack columns row) := by
  have read := sumValues_numbers line (keyFields row) 0.0 (values columns row)
  have mode : Columns.field (keyFields row ++ (values columns row).map number) 1 =
      row.run.mode.name := rfl
  rw [record_eq, Columns.row]
  simp only [mode, Mode.ofName?_name]
  rw [show 4 = (keyFields row).length from rfl, read, ← readSum_eq]
  rfl

/-- The sum that is read back is that of the row, up to the sign of a zero. -/
theorem sameUpToZero_readSum (columns : ValueColumns) (row : Row) :
    SameUpToZero (readSum columns row) row.sum := by
  cases columns with
  | perCore => exact SameUpToZero.foldl (.inr ⟨.inl rfl, .inr rfl⟩) row.speedup.perCore
  | sum =>
      have start : SameUpToZero (0.0 + row.sum) (-0.0 + row.sum) :=
        SameUpToZero.add (.inr ⟨.inl rfl, .inr rfl⟩) row.sum
      rwa [negZero_add] at start

/-- The sum of a row without minus signs is read back as it is. -/
theorem readSum_eq_sum (columns : ValueColumns) {row : Row}
    (hasCores : 0 < row.speedup.perCore.length)
    (unsigned : ∀ x ∈ row.speedup.perCore, Unsigned x) : readSum columns row = row.sum := by
  have nonempty := List.ne_nil_of_length_pos hasCores
  cases columns with
  | perCore => exact foldl_zero_eq_floatSum nonempty unsigned
  | sum => exact Binary64.zero_add (unsigned_floatSum nonempty unsigned)

end Fields

section Records

theorem texts_encode (record : List String) : texts (record.map Utf8.encode) = .ok record := by
  have decoded : (record.map Utf8.encode).mapM Utf8.decode? = some record := by
    induction record with
    | nil => rfl
    | cons text rest ih => simp [List.mapM_cons, ih]
  rw [texts, decoded]

/-- Whether each row of some results has a number for each column of numbers of their table. -/
def Uniform (columns : ValueColumns) (output : Collection) : Prop :=
  ∀ row ∈ output.rows, (values columns row).length = valueCount columns output.coreCount

theorem uniform_sum (output : Collection) : Uniform .sum output :=
  fun _ _ => rfl

theorem readRecords_records {output : Collection} {columns : ValueColumns}
    (uniform : Uniform columns output) (line : Nat) {rows : List Row}
    (among : ∀ row ∈ rows, row ∈ output.rows) :
    readRecords ⟨0, 1, 2, 3, List.range' 4 (valueCount columns output.coreCount)⟩
      (4 + valueCount columns output.coreCount) line
      (rows.map fun row => (record columns row).map Utf8.encode) =
        .ok (rows.map (readBack columns)) := by
  induction rows generalizing line with
  | nil => rfl
  | cons row rest ih =>
      have cores := uniform row (among row List.mem_cons_self)
      have read := row_record columns line row
      have width : ((record columns row).map Utf8.encode).length =
          4 + valueCount columns output.coreCount := by
        rw [List.length_map, length_record, cores]
      have later := ih (line + 1) fun other mem => among other (List.mem_cons_of_mem row mem)
      rw [cores] at read
      rw [List.map_cons, readRecords, if_neg (not_not_intro width), texts_encode]
      simp only [bind, Except.bind, read, Except.mapError, later]
      rfl

/-- The records of the table of some results, the first with the names of the columns. -/
def records (columns : ValueColumns) (output : Collection) : List (List Bytes) :=
  (header columns output.coreCount :: output.rows.map (record columns)).map fun fields =>
    fields.map Utf8.encode

/-- The text of a table. -/
theorem render_eq (columns : ValueColumns) (output : Collection) : render columns output =
    Csv.renderAll (4 + valueCount columns output.coreCount) (records columns output) := by
  have first : ((records columns output).headD []).length =
      4 + valueCount columns output.coreCount := by
    rw [records, List.map_cons, List.headD_cons, List.length_map, length_header]
  rw [← first]
  rfl

/-- All records of a table have one length exactly if each row has a number for each column. -/
theorem uniform_iff (columns : ValueColumns) (output : Collection) : Uniform columns output ↔
    ∀ fields ∈ records columns output,
      fields.length = 4 + valueCount columns output.coreCount := by
  constructor
  · intro uniform fields mem
    obtain ⟨texts, listed, rfl⟩ := List.mem_map.mp mem
    rw [List.length_map]
    rcases List.mem_cons.mp listed with rfl | written
    · exact length_header columns output.coreCount
    · obtain ⟨row, found, rfl⟩ := List.mem_map.mp written
      rw [length_record, uniform row found]
  · intro lengths row mem
    have listed : (record columns row).map Utf8.encode ∈ records columns output :=
      List.mem_map_of_mem (List.mem_cons_of_mem _ (List.mem_map_of_mem mem))
    have width := lengths _ listed
    rw [List.length_map, length_record] at width
    omega

/-- The text of a table breaks off unless each row has a number for each column. -/
theorem render_snd_eq_none_iff (columns : ValueColumns) (output : Collection) :
    (render columns output).2 = none ↔ Uniform columns output := by
  rw [render_eq, Csv.renderAll_snd, Option.map_eq_none_iff, List.find?_eq_none, uniform_iff]
  simp

theorem render?_eq_error_iff (columns : ValueColumns) (output : Collection) :
    render? columns output = .error .capacityOverflow ↔
      canListHeader columns output.coreCount = false := by
  unfold render?
  cases canListHeader columns output.coreCount <;> simp

theorem eq_render_of_render? {columns : ValueColumns} {output : Collection}
    {text : Bytes × Option Csv.LengthMismatch} (rendered : render? columns output = .ok text) :
    text = render columns output := by
  unfold render? at rendered
  split at rendered
  · exact (Except.ok.inj rendered).symm
  · cases rendered

/-- Memory can always list the columns of a table with sums. -/
theorem render?_sum (output : Collection) : render? .sum output = .ok (render .sum output) :=
  if_pos rfl

/-- The text of a table starts with the name of its first column and not with a mark. -/
theorem unmarked_render (columns : ValueColumns) (output : Collection) :
    Csv.byteOrderMark.isPrefixOf (render columns output).1 = false := by
  obtain ⟨rest, names, several⟩ : ∃ rest, (header columns output.coreCount).map Utf8.encode =
      Utf8.encode methodColumn :: rest ∧ rest ≠ [] := by
    rw [header.eq_def]
    exact ⟨_, rfl, List.cons_ne_nil _ _⟩
  have name : Csv.fieldText (Utf8.encode methodColumn) = [0x6D, 0x65, 0x74, 0x68, 0x6F, 0x64] := by
    decide +kernel
  have width : ((header columns output.coreCount).map Utf8.encode).length =
      4 + valueCount columns output.coreCount := by
    rw [List.length_map, length_header]
  rw [render_eq, records, List.map_cons, Csv.renderAll, if_pos width, names,
    Csv.recordText_cons _ several, name]
  rfl

section Reading

variable {output : Collection} {columns : ValueColumns}

/-- The records of a table are read back from its text. -/
theorem parse_render (uniform : Uniform columns output) :
    Csv.parse (render columns output).1 = records columns output := by
  have unmarked := unmarked_render columns output
  rw [render_eq] at unmarked ⊢
  exact Csv.parse_renderAll (by omega) ((uniform_iff columns output).mp uniform) unmarked

/-- The rows of a table are read back from its text, with the sums that the reader takes. -/
theorem read_render_of_uniform (hasCores : 0 < output.coreCount) (uniform : Uniform columns output) :
    read (render columns output).1 = .ok (output.rows.map (readBack columns)) := by
  have columnsFound := ofHeader_header columns hasCores
  have rows := readRecords_records uniform 2 fun _ mem => mem
  have width := length_header columns output.coreCount
  rw [read, parse_render uniform]
  simp only [records, List.map_cons, List.headD_cons, List.tail_cons, texts_encode, List.map_map]
  simp only [bind, Except.bind, columnsFound, Except.mapError, width]
  exact rows

end Reading

section Scored

variable {output : Collection} (scored : output.Scored) (columns : ValueColumns)

include scored

/-- Scored results have a number for each column of their table. -/
theorem uniform_of_scored : Uniform columns output := by
  cases columns with
  | perCore => exact scored.length
  | sum => exact uniform_sum output

/-- The text of the table of scored results does not break off. -/
theorem render_snd : (render columns output).2 = none :=
  (render_snd_eq_none_iff columns output).mpr (uniform_of_scored scored columns)

/-- The rows of scored results are read back from the text of their table as they are. -/
theorem read_render : read (render columns output).1 = .ok (output.rows.map Measurement.ofRow) := by
  rw [read_render_of_uniform scored.hasCores (uniform_of_scored scored columns)]
  congr 1
  apply List.map_congr_left
  intro row mem
  have same := readSum_eq_sum columns (scored.length row mem ▸ scored.hasCores)
    (scored.unsigned row mem)
  rw [readBack, same]
  rfl

end Scored

end Records

end ResultTable

end SpeedupStudy
