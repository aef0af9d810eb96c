/-
# Which fault of a table is reported

A table whose records are texts of one length is read whole or not at all. Its rows are read if
every record has a known mode and a number in each column of values. Otherwise the first record at
fault is reported: its mode, or else the first of its values that is no number. The report gives the
number of this record, where the header is number 1. This is the line on which the record begins
only if the records before it take one line each and no empty lines are among them.
-/

import Mathlib
import SpeedupStudy.Proofs.Csv.Lines
import SpeedupStudy.Proofs.Table.Columns

namespace SpeedupStudy

/-- Of the elements of a list without a property there is a first one. -/
theorem exists_first_without {α : Type} {p : α → Prop} [DecidablePred p] {s : List α}
    (missing : ¬ ∀ a ∈ s, p a) :
    ∃ before a after, s = before ++ a :: after ∧ (∀ other ∈ before, p other) ∧ ¬ p a := by
  cases first : s.find? fun a => ¬ p a with
  | none => exact absurd (by simpa using first) missing
  | some a =>
      obtain ⟨lacks, before, after, rfl, earlier⟩ := List.find?_eq_some_iff_append.mp first
      exact ⟨before, a, after, rfl, by simpa using earlier, by simpa using lacks⟩

namespace ResultTable

namespace Columns

variable {columns : Columns} {line : Nat} {record : List String}

/-- Whether a record has a number in a column, with or without blanks around it. -/
def HasNumber (record : List String) (column : Nat) : Prop :=
  (readFloat? (Text.trim (field record column).toList)).isSome

instance (record : List String) (column : Nat) : Decidable (HasNumber record column) :=
  inferInstanceAs (Decidable (_ = true))

/-- Whether the row of a record can be read. -/
structure Sound (columns : Columns) (record : List String) : Prop where
  mode : (Mode.ofName? (field record columns.mode)).isSome
  values : ∀ column ∈ columns.values, HasNumber record column

instance (columns : Columns) (record : List String) : Decidable (columns.Sound record) :=
  decidable_of_iff
    ((Mode.ofName? (field record columns.mode)).isSome ∧
      ∀ column ∈ columns.values, HasNumber record column)
    ⟨fun both => ⟨both.1, both.2⟩, fun sound => ⟨sound.mode, sound.values⟩⟩

/-- The fault of a record that is reported: its mode if it is unknown, or else the first of its
values that is no number, in the order of the columns. -/
inductive Faulty (columns : Columns) (line : Nat) (record : List String) : InputFault → Prop
  | mode (unknown : Mode.ofName? (field record columns.mode) = none) :
      Faulty columns line record (.unknownMode line (field record columns.mode))
  | value (mode : Mode) (known : Mode.ofName? (field record columns.mode) = some mode)
      (column : Nat) (selected : column ∈ columns.values) (noNumber : ¬ HasNumber record column)
      (numbers : ∀ other ∈ columns.values, other < column → HasNumber record other) :
      Faulty columns line record (.invalidValue line (field record column))

/-- The columns of values are found in their order. -/
theorem sorted_of_ofHeader {names : List String} (found : ofHeader names = .ok columns) :
    columns.values.Pairwise (· < ·) := by
  have values : findValues names = .ok columns.values := by
    simp only [ofHeader, bind, Except.bind] at found
    split at found <;> try cases found
    split at found <;> try cases found
    split at found <;> try cases found
    split at found <;> try cases found
    split at found <;> try cases found
    next values => exact values
  rw [findValues] at values
  split at values
  · rw [← Except.ok.inj values]
    exact List.pairwise_singleton _ _
  · dsimp only at values
    split at values
    · cases values
    · rw [← Except.ok.inj values]
      exact List.pairwise_lt_range.filter _

/-- The report of a fault starts with the number of the line. -/
theorem Faulty.exists_message {fault : InputFault} (faulty : columns.Faulty line record fault) :
    ∃ cause, fault.message = "line " ++ toString line ++ cause := by
  cases faulty with
  | mode unknown =>
      refine ⟨": unknown run mode '" ++ (field record columns.mode ++ "'"), ?_⟩
      change "line " ++ toString line ++ ": unknown run mode '" ++ field record columns.mode ++
        "'" = _
      simp only [String.append_assoc]
  | value _ _ column _ _ _ =>
      refine ⟨": invalid value '" ++ (field record column ++ "'"), ?_⟩
      change "line " ++ toString line ++ ": invalid value '" ++ field record column ++ "'" = _
      simp only [String.append_assoc]

/-- Values are added up if they all are numbers. -/
theorem exists_sumValues (sum : Float) {values : List Nat}
    (numbers : ∀ column ∈ values, HasNumber record column) :
    ∃ total, ∀ line, sumValues line record sum values = .ok total := by
  induction values generalizing sum with
  | nil => exact ⟨sum, fun _ => rfl⟩
  | cons column rest ih =>
      obtain ⟨first, numbers⟩ := List.forall_mem_cons.mp numbers
      obtain ⟨x, number⟩ := Option.isSome_iff_exists.mp first
      obtain ⟨total, later⟩ := ih (sum + x) numbers
      refine ⟨total, fun line => ?_⟩
      rw [sumValues, number]
      exact later line

/-- The first value that is no number is reported. -/
theorem sumValues_of_noNumber (line : Nat) (sum : Float) {before : List Nat} {column : Nat}
    (numbers : ∀ other ∈ before, HasNumber record other) (noNumber : ¬ HasNumber record column)
    (after : List Nat) :
    sumValues line record sum (before ++ column :: after) =
      .error (.invalidValue line (field record column)) := by
  induction before generalizing sum with
  | nil =>
      have nothing : readFloat? (Text.trim (field record column).toList) = none :=
        Option.not_isSome_iff_eq_none.mp noNumber
      rw [List.nil_append, sumValues, nothing]
  | cons other rest ih =>
      obtain ⟨first, numbers⟩ := List.forall_mem_cons.mp numbers
      obtain ⟨x, number⟩ := Option.isSome_iff_exists.mp first
      rw [List.cons_append, sumValues, number]
      exact ih (sum + x) numbers

/-- A sound record has a row, whatever line it is on. -/
theorem Sound.exists_row (sound : columns.Sound record) :
    ∃ row, ∀ line, columns.row line record = .ok row := by
  obtain ⟨mode, known⟩ := Option.isSome_iff_exists.mp sound.mode
  obtain ⟨total, summed⟩ := exists_sumValues 0.0 sound.values
  refine ⟨⟨field record columns.method, mode, field record columns.config,
    field record columns.runBase, total⟩, fun line => ?_⟩
  rw [row, known]
  simp only [summed]
  rfl

theorem Faulty.row_eq {fault : InputFault} (faulty : columns.Faulty line record fault)
    (sorted : columns.values.Pairwise (· < ·)) : columns.row line record = .error fault := by
  cases faulty with
  | mode unknown => rw [row, unknown]
  | value mode known column selected noNumber numbers =>
      obtain ⟨before, after, order⟩ := List.append_of_mem selected
      have first : ∀ other ∈ before, HasNumber record other := fun other mem =>
        numbers other (order ▸ List.mem_append_left _ mem) <|
          (List.pairwise_append.mp (order ▸ sorted)).2.2 other mem column List.mem_cons_self
      rw [row, known]
      simp only [order, sumValues_of_noNumber line 0.0 first noNumber after]
      rfl

/-- A record that is not sound has a fault that is reported. -/
theorem exists_faulty (line : Nat) (unsound : ¬ columns.Sound record)
    (sorted : columns.values.Pairwise (· < ·)) : ∃ fault, columns.Faulty line record fault := by
  cases known : Mode.ofName? (field record columns.mode) with
  | none => exact ⟨_, .mode known⟩
  | some mode =>
      have missing : ¬ ∀ column ∈ columns.values, HasNumber record column :=
        fun values => unsound ⟨by rw [known]; rfl, values⟩
      obtain ⟨before, column, after, order, numbers, noNumber⟩ := exists_first_without missing
      refine ⟨_, .value mode known column (by simp [order]) noNumber fun other selected less => ?_⟩
      rw [order] at selected sorted
      rcases List.mem_append.mp selected with early | late
      · exact numbers other early
      · -- what comes after a column is not less than it
        have later := (List.pairwise_append.mp sorted).2.1
        rcases List.mem_cons.mp late with rfl | late
        · exact absurd less (Nat.lt_irrefl _)
        · exact absurd less (Nat.lt_asymm ((List.pairwise_cons.mp later).1 other late))

end Columns

namespace TextTable

variable {table : TextTable} {columns : Columns} {text : Bytes}

/-- One more record is read, unless its row is refused. -/
theorem readRecords_cons (columns : Columns) {width line : Nat} {record : List String}
    (rectangular : record.length = width) (rest : List (List String)) :
    readRecords columns width line ((record :: rest).map fun fields => fields.map Utf8.encode) =
      (do
        let row ← (columns.row line record).mapError .input
        let rows ← readRecords columns width (line + 1)
          (rest.map fun fields => fields.map Utf8.encode)
        return row :: rows) := by
  have encoded : (record.map Utf8.encode).length = width := by rw [List.length_map, rectangular]
  rw [List.map_cons, readRecords, if_neg (not_not_intro encoded), texts_encode]
  rfl

/-- Sound records are read one by one. -/
theorem readRecords_of_sound (line : Nat) {width : Nat} {records : List (List String)}
    (rectangular : ∀ record ∈ records, record.length = width)
    (sound : ∀ record ∈ records, columns.Sound record) :
    ∃ rows, readRecords columns width line
        (records.map fun fields => fields.map Utf8.encode) = .ok rows ∧
      List.Forall₂ (fun record row => ∀ line, columns.row line record = .ok row) records rows := by
  induction records generalizing line with
  | nil => exact ⟨[], rfl, .nil⟩
  | cons record rest ih =>
      obtain ⟨length, rectangular⟩ := List.forall_mem_cons.mp rectangular
      obtain ⟨first, sound⟩ := List.forall_mem_cons.mp sound
      obtain ⟨row, read⟩ := first.exists_row
      obtain ⟨rows, later, rowwise⟩ := ih (line + 1) rectangular sound
      refine ⟨row :: rows, ?_, .cons read rowwise⟩
      rw [readRecords_cons columns length, read, later]
      rfl

/-- The first record at fault ends the reading, with the number that it has then. -/
theorem readRecords_of_faulty {width line : Nat} {earlier later : List (List String)}
    {record : List String} {fault : InputFault} (sorted : columns.values.Pairwise (· < ·))
    (rectangular : ∀ other ∈ earlier ++ record :: later, other.length = width)
    (sound : ∀ other ∈ earlier, columns.Sound other)
    (faulty : columns.Faulty (line + earlier.length) record fault) :
    readRecords columns width line
      ((earlier ++ record :: later).map fun fields => fields.map Utf8.encode) =
        .error (.input fault) := by
  induction earlier generalizing line with
  | nil =>
      have refused : columns.row line record = .error fault := faulty.row_eq sorted
      rw [List.nil_append, readRecords_cons columns (rectangular record (by simp)), refused]
      rfl
  | cons other rest ih =>
      obtain ⟨length, rectangular⟩ := List.forall_mem_cons.mp rectangular
      obtain ⟨first, sound⟩ := List.forall_mem_cons.mp sound
      obtain ⟨row, read⟩ := first.exists_row
      have number : line + (other :: rest).length = line + 1 + rest.length := by
        rw [List.length_cons]
        omega
      rw [List.cons_append, readRecords_cons columns length, read,
        ih rectangular sound (number ▸ faulty)]
      rfl

/-- A text is read by its header. -/
theorem read_of_parse (parsed : Csv.parse text = table.encoded)
    (found : Columns.ofHeader table.names = .ok columns) :
    read text = readRecords columns table.names.length 2
      (table.records.map fun fields => fields.map Utf8.encode) := by
  rw [read, parsed, encoded]
  simp only [List.map_cons, List.headD_cons, List.tail_cons, texts_encode, bind, Except.bind,
    found, Except.mapError]

/-- A table of sound records is read whole. -/
theorem read_of_sound (parsed : Csv.parse text = table.encoded)
    (found : Columns.ofHeader table.names = .ok columns)
    (sound : ∀ record ∈ table.records, columns.Sound record) :
    ∃ rows, read text = .ok rows ∧
      List.Forall₂ (fun record row => ∀ line, columns.row line record = .ok row)
        table.records rows := by
  rw [read_of_parse parsed found]
  exact readRecords_of_sound 2 table.rectangular sound

/-- The first record that is not sound has its fault reported. -/
theorem exists_read_fault (parsed : Csv.parse text = table.encoded)
    (found : Columns.ofHeader table.names = .ok columns) {earlier later : List (List String)}
    {record : List String} (order : table.records = earlier ++ record :: later)
    (sound : ∀ other ∈ earlier, columns.Sound other) (unsound : ¬ columns.Sound record) :
    ∃ fault, read text = .error (.input fault) ∧
      columns.Faulty (earlier.length + 2) record fault := by
  have sorted := Columns.sorted_of_ofHeader found
  obtain ⟨fault, faulty⟩ := Columns.exists_faulty (earlier.length + 2) unsound sorted
  refine ⟨fault, ?_, faulty⟩
  rw [read_of_parse parsed found, order]
  exact readRecords_of_faulty sorted (order ▸ table.rectangular) sound
    (Nat.add_comm earlier.length 2 ▸ faulty)

theorem sound_of_read (parsed : Csv.parse text = table.encoded)
    (found : Columns.ofHeader table.names = .ok columns) {rows : List Measurement}
    (rows_eq : read text = .ok rows) : ∀ record ∈ table.records, columns.Sound record := by
  by_contra missing
  obtain ⟨earlier, record, later, order, sound, unsound⟩ := exists_first_without missing
  obtain ⟨fault, refused, -⟩ := exists_read_fault parsed found order sound unsound
  rw [rows_eq] at refused
  cases refused

/-- The line on which a record of a table begins. -/
theorem lineEnds_before (parsed : Csv.parse text = table.encoded)
    {earlier later : List (List String)} {record : List String}
    (order : table.records = earlier ++ record :: later) {before rest : Bytes}
    (begins : Csv.BeginsAfter text (earlier.length + 1) before rest) :
    Csv.lineEnds before = earlier.length + 1 + Csv.emptyLines before +
      (((table.names :: earlier).map fun fields =>
        Csv.innerLineEnds (fields.map Utf8.encode)).sum) := by
  have taken : (Csv.parse text).take (earlier.length + 1) =
      (table.names :: earlier).map fun fields => fields.map Utf8.encode := by
    rw [parsed, encoded, order, ← List.map_take, List.take_succ_cons, List.take_left]
  rw [begins.lineEnds_eq, taken, List.map_map]
  rfl

/-- A table is read whole or not at all. It has rows if each record is sound. Otherwise the first
record at fault is reported, with its first fault and a number that counts the records up to it, the
header among them. The line on which it begins has this number only if no empty lines and no line
ends in fields come before. -/
theorem read_reports_first (parsed : Csv.parse text = table.encoded)
    (found : Columns.ofHeader table.names = .ok columns) :
    ((∃ rows, read text = .ok rows) ↔ ∀ record ∈ table.records, columns.Sound record) ∧
      (∀ rows, read text = .ok rows →
        List.Forall₂ (fun record row => ∀ line, columns.row line record = .ok row)
          table.records rows) ∧
      ∀ earlier record later, table.records = earlier ++ record :: later →
        (∀ other ∈ earlier, columns.Sound other) → ¬ columns.Sound record →
          (∃ fault, read text = .error (.input fault) ∧
            columns.Faulty (earlier.length + 2) record fault ∧
            ∃ cause, fault.message = "line " ++ toString (earlier.length + 2) ++ cause) ∧
          ∃ before rest, Csv.BeginsAfter text (earlier.length + 1) before rest ∧
            Csv.lineEnds before + 1 = earlier.length + 2 + Csv.emptyLines before +
              (((table.names :: earlier).map fun fields =>
                Csv.innerLineEnds (fields.map Utf8.encode)).sum) := by
  refine ⟨⟨fun ⟨rows, rows_eq⟩ => sound_of_read parsed found rows_eq, fun sound => ?_⟩,
    fun rows rows_eq => ?_, fun earlier record later order sound unsound => ⟨?_, ?_⟩⟩
  · obtain ⟨rows, rows_eq, -⟩ := read_of_sound parsed found sound
    exact ⟨rows, rows_eq⟩
  · obtain ⟨others, others_eq, rowwise⟩ :=
      read_of_sound parsed found (sound_of_read parsed found rows_eq)
    rw [rows_eq] at others_eq
    cases others_eq
    exact rowwise
  · obtain ⟨fault, refused, faulty⟩ := exists_read_fault parsed found order sound unsound
    exact ⟨fault, refused, faulty, faulty.exists_message⟩
  · have inside : earlier.length + 1 < (Csv.parse text).length := by
      rw [parsed, encoded, order]
      simp
    obtain ⟨before, rest, begins⟩ := Csv.exists_beginsAfter inside
    have line := lineEnds_before parsed order begins
    exact ⟨before, rest, begins, by omega⟩

/-- A table with a line end in a field of a sound record. The record after it has a value that is no
number. -/
def wrapped : TextTable :=
  ⟨["method", "run_mode", "config", "run_base", "sum"],
    [["baseline", "rate", "none", "a\r\nb", "1"], ["para", "rate", "512", "a", " 0.5\t"],
      ["para", "rate", "512", "b", "1 5"]],
    by decide⟩

/-- A text of this table, with an empty line in it. -/
def wrappedText : Bytes :=
  Utf8.encode <|
    "method,run_mode,config,run_base,sum\nbaseline,rate,none,\"a\r\nb\",1\r\n\n" ++
      "para,rate,512,a, 0.5\t\npara,rate,512,b,1 5"

/-- The last record stands on the last line. -/
theorem beginsAfter_wrapped :
    Csv.BeginsAfter wrappedText 3 (wrappedText.take 88) (wrappedText.drop 88) where
  whole := by decide +kernel
  between := by decide +kernel
  taken := by decide +kernel
  begins := by decide +kernel
  read := by decide +kernel

theorem read_reports_first_wrapped :
    Csv.parse wrappedText = wrapped.encoded ∧
      Columns.ofHeader wrapped.names = .ok ⟨0, 1, 2, 3, [4]⟩ ∧
      read wrappedText = .error (.input (.invalidValue 4 "1 5")) ∧
      ∃ before rest, Csv.BeginsAfter wrappedText 3 before rest ∧
        Csv.lineEnds before + 1 = 4 + 1 + 1 := by
  have parsed : Csv.parse wrappedText = wrapped.encoded := by decide +kernel
  have found : Columns.ofHeader wrapped.names = .ok ⟨0, 1, 2, 3, [4]⟩ := by decide
  obtain ⟨-, -, first⟩ := read_reports_first parsed found
  obtain ⟨⟨fault, refused, faulty, -⟩, before, rest, begins, line⟩ :=
    first (wrapped.records.take 2) ["para", "rate", "512", "b", "1 5"] [] (by decide)
      (by decide +kernel) (by decide +kernel)
  refine ⟨parsed, found, ?_, before, rest, begins, ?_⟩
  · cases faulty with
    | mode unknown => exact absurd unknown (by decide)
    | value mode known column selected noNumber numbers =>
        obtain rfl := List.mem_singleton.mp selected
        exact refused
  · have emptyLines : Csv.emptyLines before = 1 := by
      rw [begins.before_eq beginsAfter_wrapped]
      decide +kernel
    rw [line, emptyLines]
    decide +kernel

/-- A table with an unknown mode in its only record. -/
def unknownMode : TextTable :=
  ⟨["method", "run_mode", "config", "run_base", "sum"], [["para", "stream", "512", "x", "1"]],
    by decide⟩

/-- A text of this table, with an empty line after the header. -/
def unknownModeText : Bytes :=
  Utf8.encode "method,run_mode,config,run_base,sum\n\npara,stream,512,x,1\n"

/-- The mode on the third line is reported for the second. -/
theorem read_reports_second_line :
    Csv.parse unknownModeText = unknownMode.encoded ∧
      Columns.ofHeader unknownMode.names = .ok ⟨0, 1, 2, 3, [4]⟩ ∧
      read unknownModeText = .error (.input (.unknownMode 2 "stream")) ∧
      (∃ before rest, Csv.BeginsAfter unknownModeText 1 before rest) ∧
      ∀ before rest, Csv.BeginsAfter unknownModeText 1 before rest →
        Csv.lineEnds before + 1 = 3 := by
  have begins : Csv.BeginsAfter unknownModeText 1 (unknownModeText.take 37)
      (unknownModeText.drop 37) :=
    ⟨by decide +kernel, by decide +kernel, by decide +kernel, by decide +kernel,
      by decide +kernel⟩
  refine ⟨by decide +kernel, by decide, by decide +kernel, ⟨_, _, begins⟩,
    fun before rest other => ?_⟩
  rw [other.before_eq begins]
  decide +kernel

end TextTable

end ResultTable

end SpeedupStudy
