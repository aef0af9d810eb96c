/-
# Tables with other columns

A result table can come from elsewhere: its columns stand in another order, and there are columns
that the reader has no use for. The reader goes by the names in the header. Where each of the five
names that it needs stands there once, it takes from a record the fields below these names and
nothing else, so two tables with the same five columns are read alike, whatever the order and the
contents of their other columns.
-/

import Mathlib
import SpeedupStudy.Proofs.Table
import SpeedupStudy.Proofs.Text.Occurrence

namespace SpeedupStudy

namespace Csv

/-- A written field starts like a byte order mark only if the field itself does. -/
theorem unmarked_fieldText {field : Bytes} (unmarked : byteOrderMark.isPrefixOf field = false)
    (rest : Bytes) : byteOrderMark.isPrefixOf (fieldText field ++ comma :: rest) = false := by
  rw [← Bool.not_eq_true, List.isPrefixOf_iff_prefix] at unmarked ⊢
  intro marked
  unfold fieldText at marked
  split at marked
  · obtain ⟨text, same⟩ := marked
    exact absurd (congrArg List.head? same) (by simp [byteOrderMark, quote])
  · exact unmarked (Text.isPrefix_of_append_cons (by decide) marked)

end Csv

namespace ResultTable

/-- The names of the columns that a reader needs of a table with sums. -/
def neededColumns : List String :=
  keyColumns ++ [sumColumn]

/-- A table of texts: the names of its columns, and records with a field in each of them. -/
structure TextTable where
  names : List String
  records : List (List String)
  rectangular : ∀ record ∈ records, record.length = names.length

namespace TextTable

/-- The records that are written for a table, the first with the names of the columns. -/
def encoded (table : TextTable) : List (List Bytes) :=
  (table.names :: table.records).map fun fields => fields.map Utf8.encode

/-- The text of a table, with the first record that has another length than the header. -/
def written (table : TextTable) : Bytes × Option Csv.LengthMismatch :=
  Csv.render table.encoded

/-- The fields in one place of the records. -/
def cells (table : TextTable) (place : Nat) : List String :=
  table.records.map fun record => Columns.field record place

/-- The columns in their order, each with its name. -/
def columns (table : TextTable) : List (String × List String) :=
  table.names.zipIdx.map fun (name, place) => (name, table.cells place)

/-- Whether a reader can find its way in a table with sums: each of the needed columns is there
once, and no name starts with a byte order mark. -/
structure Readable (table : TextTable) : Prop where
  once : ∀ name ∈ neededColumns, table.names.count name = 1
  unmarked : ∀ name ∈ table.names, Csv.byteOrderMark.isPrefixOf (Utf8.encode name) = false

/-- Whether two tables have the same needed columns, in whatever order and among whatever others. -/
def Agree (table table' : TextTable) : Prop :=
  (table.columns.filter fun column => column.1 ∈ neededColumns).Perm
    (table'.columns.filter fun column => column.1 ∈ neededColumns)

/-- The fields of a record in the needed columns. -/
def needed (table : TextTable) (record : List String) : List String :=
  neededColumns.map fun name => Columns.field record (table.names.idxOf name)

variable {table table' : TextTable}

theorem mem_columns_iff {name : String} {cells : List String} :
    (name, cells) ∈ table.columns ↔
      ∃ place, table.names[place]? = some name ∧ table.cells place = cells := by
  simp only [columns, List.mem_map, Prod.exists, Prod.mk.injEq, List.mem_zipIdx_iff_getElem?]
  constructor
  · rintro ⟨_, place, found, rfl, rfl⟩
    exact ⟨place, found, rfl⟩
  · rintro ⟨place, found, rfl⟩
    exact ⟨name, place, found, rfl, rfl⟩

theorem length_of_mem_encoded (table : TextTable) :
    ∀ record ∈ table.encoded, record.length = table.names.length := by
  simp only [encoded, List.forall_mem_map, List.forall_mem_cons, List.length_map]
  exact ⟨trivial, table.rectangular⟩

theorem written_eq (table : TextTable) :
    table.written = Csv.renderAll table.names.length table.encoded := by
  rw [written, Csv.render, encoded, List.map_cons, List.headD_cons, List.length_map]

/-- A name that stands in a header once stands where it is found. -/
theorem idxOf_eq_of_once {names : List String} {name : String} {place : Nat}
    (once : names.count name = 1) (found : names[place]? = some name) :
    names.idxOf name = place := by
  induction names generalizing place with
  | nil => simp at found
  | cons first rest ih =>
      by_cases same : first = name
      · subst same
        rw [List.count_cons_self, Nat.add_eq_right, List.count_eq_zero] at once
        cases place with
        | zero => exact List.idxOf_cons_self
        | succ place =>
            rw [List.getElem?_cons_succ] at found
            exact absurd (List.mem_of_getElem? found) once
      · rw [List.count_cons_of_ne same] at once
        cases place with
        | zero => exact absurd (Option.some.inj found) same
        | succ place => rw [List.idxOf_cons_ne rest same, ih once found]

namespace Readable

variable (readable : table.Readable)

include readable

theorem mem {name : String} (needed : name ∈ neededColumns) : name ∈ table.names :=
  List.count_pos_iff.mp (by rw [readable.once name needed]; decide)

theorem find {name : String} (needed : name ∈ neededColumns) :
    Columns.find table.names name = .ok (table.names.idxOf name) := by
  rw [Columns.find, List.idxOf_eq_getD_idxOf?]
  cases found : table.names.idxOf? name with
  | none => exact absurd (readable.mem needed) (List.idxOf?_eq_none_iff.mp found)
  | some column => rfl

/-- The columns are found where their names stand, and there is one column of values. -/
theorem ofHeader : Columns.ofHeader table.names =
    .ok ⟨table.names.idxOf methodColumn, table.names.idxOf modeColumn,
      table.names.idxOf configColumn, table.names.idxOf runBaseColumn,
      [table.names.idxOf sumColumn]⟩ := by
  have sums : Columns.findValues table.names = .ok [table.names.idxOf sumColumn] := by
    have found : Columns.find table.names sumColumn = .ok (table.names.idxOf sumColumn) :=
      readable.find (by decide)
    rw [Columns.find] at found
    rw [Columns.findValues]
    cases place : table.names.idxOf? sumColumn with
    | none => simp [place] at found
    | some column =>
        rw [place] at found
        rw [← Except.ok.inj found]
  rw [Columns.ofHeader, readable.find (by decide), readable.find (by decide),
    readable.find (by decide), readable.find (by decide), sums]
  rfl

theorem exists_names : ∃ first rest, table.names = first :: rest ∧ rest ≠ [] := by
  have method : methodColumn ∈ table.names := readable.mem (by decide)
  have mode : modeColumn ∈ table.names := readable.mem (by decide)
  cases names : table.names with
  | nil => simp [names] at method
  | cons first rest =>
      refine ⟨first, rest, rfl, ?_⟩
      rintro rfl
      rw [names, List.mem_singleton] at method mode
      exact absurd (method.trans mode.symm) (by decide)

/-- The text starts with the first name and not with a mark. -/
theorem unmarked_written : Csv.byteOrderMark.isPrefixOf table.written.1 = false := by
  obtain ⟨first, rest, names, several⟩ := readable.exists_names
  have start := readable.unmarked first (by simp [names])
  have header : table.names.map Utf8.encode = Utf8.encode first :: rest.map Utf8.encode := by
    rw [names, List.map_cons]
  rw [written_eq, encoded, List.map_cons, Csv.renderAll, if_pos (List.length_map _), header,
    Csv.recordText_cons _ (by simpa using several)]
  simp only [List.append_assoc, List.cons_append]
  exact Csv.unmarked_fieldText start _

/-- The records are written whole and found again. -/
theorem parse_written : table.written.2 = none ∧ Csv.parse table.written.1 = table.encoded := by
  obtain ⟨first, rest, names, -⟩ := readable.exists_names
  have unmarked := readable.unmarked_written
  rw [written_eq] at unmarked ⊢
  constructor
  · rw [Csv.renderAll_snd, Option.map_eq_none_iff, List.find?_eq_none]
    simpa using table.length_of_mem_encoded
  · exact Csv.parse_renderAll (by simp [names]) table.length_of_mem_encoded unmarked

end Readable

/-- A record is read by its fields in the needed columns. -/
theorem row_needed (table : TextTable) (line : Nat) (record : List String) :
    Columns.row ⟨table.names.idxOf methodColumn, table.names.idxOf modeColumn,
      table.names.idxOf configColumn, table.names.idxOf runBaseColumn,
      [table.names.idxOf sumColumn]⟩ line record =
        Columns.row ⟨0, 1, 2, 3, [4]⟩ line (table.needed record) :=
  rfl

/-- Records are read by their fields in the needed columns. -/
theorem readRecords_needed (table : TextTable) (line : Nat) {records : List (List String)}
    (among : ∀ record ∈ records, record ∈ table.records) :
    readRecords ⟨table.names.idxOf methodColumn, table.names.idxOf modeColumn,
      table.names.idxOf configColumn, table.names.idxOf runBaseColumn,
      [table.names.idxOf sumColumn]⟩ table.names.length line
      (records.map fun fields => fields.map Utf8.encode) =
        readRecords ⟨0, 1, 2, 3, [4]⟩ 5 line
          ((records.map table.needed).map fun fields => fields.map Utf8.encode) := by
  induction records generalizing line with
  | nil => rfl
  | cons record rest ih =>
      have width : (record.map Utf8.encode).length = table.names.length := by
        rw [List.length_map, table.rectangular record (among record List.mem_cons_self)]
      have five : ((table.needed record).map Utf8.encode).length = 5 := by
        rw [List.length_map, needed, List.length_map]
        rfl
      have later := ih (line + 1) fun other mem => among other (List.mem_cons_of_mem record mem)
      rw [List.map_cons, readRecords, if_neg (not_not_intro width), texts_encode, List.map_cons,
        List.map_cons, readRecords, if_neg (not_not_intro five), texts_encode]
      simp only [bind, Except.bind, row_needed, later]

/-- A table is read by the needed columns. -/
theorem Readable.read_written (readable : table.Readable) :
    read table.written.1 = readRecords ⟨0, 1, 2, 3, [4]⟩ 5 2
      ((table.records.map table.needed).map fun fields => fields.map Utf8.encode) := by
  have rows := readRecords_needed table 2 fun _ mem => mem
  rw [read, readable.parse_written.2, encoded]
  simp only [List.map_cons, List.headD_cons, List.tail_cons, texts_encode, bind, Except.bind,
    readable.ofHeader, Except.mapError]
  exact rows

/-- Tables with the same needed columns have the same fields below each of their names. -/
theorem Agree.cells_eq (agree : Agree table table') (readable : table.Readable)
    (readable' : table'.Readable) {name : String} (needed : name ∈ neededColumns) :
    table.cells (table.names.idxOf name) = table'.cells (table'.names.idxOf name) := by
  have found : (name, table.cells (table.names.idxOf name)) ∈ table.columns :=
    mem_columns_iff.mpr ⟨_, List.getElem?_idxOf (readable.mem needed), rfl⟩
  have other := agree.mem_iff.mp (List.mem_filter.mpr ⟨found, by simpa using needed⟩)
  obtain ⟨place, found', same⟩ := mem_columns_iff.mp (List.mem_filter.mp other).1
  rw [← same, idxOf_eq_of_once (readable'.once name needed) found']

/-- Tables with the same needed columns have the same fields there, record by record. -/
theorem Agree.map_needed (agree : Agree table table') (readable : table.Readable)
    (readable' : table'.Readable) :
    table.records.map table.needed = table'.records.map table'.needed := by
  have columns {name : String} (needed : name ∈ neededColumns) :=
    agree.cells_eq readable readable' needed
  have height : table.records.length = table'.records.length := by
    have methods : methodColumn ∈ neededColumns := by decide
    simpa [cells] using congrArg List.length (columns methods)
  refine List.ext_getElem (by simpa using height) fun i inside inside' => ?_
  rw [List.length_map] at inside inside'
  rw [List.getElem_map, List.getElem_map]
  refine List.map_congr_left fun name needed => ?_
  have fields := congrArg (·[i]?) (columns needed)
  simpa [cells, inside, inside'] using fields

/-- The reader goes by the names of the columns. Two tables with the same needed columns are written
whole and give the same answer, the same rows in the same order or the same failure, whatever the
order of their columns and whatever other columns there are, those of cores included. -/
theorem read_written_of_agree (agree : Agree table table') (readable : table.Readable)
    (readable' : table'.Readable) :
    table.written.2 = none ∧ table'.written.2 = none ∧
      read table.written.1 = read table'.written.1 := by
  refine ⟨readable.parse_written.1, readable'.parse_written.1, ?_⟩
  rw [readable.read_written, readable'.read_written, agree.map_needed readable readable']

/-- Two runs with fields that must be quoted, in the columns that are needed. -/
def narrow : TextTable :=
  ⟨["method", "run_mode", "config", "run_base", "sum"],
    [["baseline", "rate", "none", "a,\"b", "1.5"], ["para", "rate", "512", "a,\"b", " 2\n"]],
    by decide⟩

/-- The same runs with the columns in another order and among others. -/
def wide : TextTable :=
  ⟨["core0", "sum", "", "run_base", "config", "run_mode", "core", "method"],
    [["9", "1.5", "x", "a,\"b", "none", "rate", "nan", "baseline"],
      ["", " 2\n", "\r", "a,\"b", "512", "rate", "", "para"]],
    by decide⟩

theorem read_written_of_agree_wide :
    Agree narrow wide ∧ narrow.Readable ∧ wide.Readable ∧
      read narrow.written.1 = .ok [⟨"baseline", .rate, "none", "a,\"b", 1.5⟩,
        ⟨"para", .rate, "512", "a,\"b", 2.0⟩] ∧
      read wide.written.1 = .ok [⟨"baseline", .rate, "none", "a,\"b", 1.5⟩,
        ⟨"para", .rate, "512", "a,\"b", 2.0⟩] := by
  have agree : Agree narrow wide := by
    unfold Agree
    decide
  have readable : narrow.Readable := ⟨by decide, by decide +kernel⟩
  have readable' : wide.Readable := ⟨by decide, by decide +kernel⟩
  obtain ⟨-, -, same⟩ := read_written_of_agree agree readable readable'
  have rows : read narrow.written.1 = .ok [⟨"baseline", .rate, "none", "a,\"b", 1.5⟩,
      ⟨"para", .rate, "512", "a,\"b", 2.0⟩] := by
    decide +kernel
  exact ⟨agree, readable, readable', rows, same.symm.trans rows⟩

end TextTable

end ResultTable

end SpeedupStudy
