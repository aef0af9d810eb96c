/-
# Lines and records

The lines of a text are not its records: a quoted field may hold line ends, so that its record goes
over several lines, and an empty line belongs to no record. The line on which a record begins is
found by counting line ends, each of which ends a record, or is that of an empty line, or stands in
a field. What one more byte does to a reader is said once, and the count is kept by each byte.
-/

import Mathlib
import SpeedupStudy.Proofs.Csv

namespace SpeedupStudy

namespace Csv

/-- The places in a text where a byte stands in a certain relation to the bytes before it. -/
def places (p : Bytes → UInt8 → Bool) (text : Bytes) : List Nat :=
  (List.range text.length).filter fun place => text[place]?.any (p (text.take place))

/-- Whether a byte ends a line after some others. A carriage return and the line feed after it end
one line. -/
def endsLine (before : Bytes) (b : UInt8) : Bool :=
  endsRecord b && !(b == lineFeed && before.getLast? == some carriageReturn)

/-- The number of lines that end in a text. -/
def lineEnds (text : Bytes) : Nat :=
  (places endsLine text).length

/-- What a reader holds after some bytes. -/
def scan (text : Bytes) : Scan :=
  text.foldl Scan.next {}

/-- Whether a byte ends a line that no record is on. -/
def endsEmptyLine (before : Bytes) (b : UInt8) : Bool :=
  (scan before).position == .recordStart && endsLine before b

/-- The number of empty lines between the records of a text. -/
def emptyLines (text : Bytes) : Nat :=
  (places endsEmptyLine text).length

/-- The number of line ends in the fields of a record. -/
def innerLineEnds (record : List Bytes) : Nat :=
  (record.map lineEnds).sum

/-- Where a record of a text begins: as many records as its number are before it, the reader stands
between records there, and what follows does not start with a line end and is read as this record
and those after it. -/
structure BeginsAfter (text : Bytes) (number : Nat) (before rest : Bytes) : Prop where
  whole : dropMark text = before ++ rest
  between : (scan before).position = .recordStart
  taken : (scan before).records.length = number
  begins : ∃ b ∈ rest.head?, endsRecord b = false
  read : (scan rest).finish = (parse text).drop number

section Counting

theorem places_concat (p : Bytes → UInt8 → Bool) (text : Bytes) (b : UInt8) :
    places p (text ++ [b]) = places p text ++ if p text b then [text.length] else [] := by
  have earlier : ∀ place ∈ List.range text.length,
      ((text ++ [b])[place]?.any (p ((text ++ [b]).take place)) : Bool) =
        text[place]?.any (p (text.take place)) := by
    intro place mem
    have inside := List.mem_range.mp mem
    rw [List.getElem?_append_left inside, List.take_append_of_le_length (Nat.le_of_lt inside)]
  rw [places, List.length_append, List.length_singleton, List.range_succ, List.filter_append,
    List.filter_congr earlier, List.filter_singleton]
  simp [places]

theorem lineEnds_nil : lineEnds [] = 0 :=
  rfl

theorem innerLineEnds_nil : innerLineEnds [] = 0 :=
  rfl

theorem innerLineEnds_cons (field : Bytes) (rest : List Bytes) :
    innerLineEnds (field :: rest) = lineEnds field + innerLineEnds rest := by
  rw [innerLineEnds, List.map_cons, List.sum_cons, innerLineEnds]

theorem innerLineEnds_reverse (record : List Bytes) :
    innerLineEnds record.reverse = innerLineEnds record := by
  rw [innerLineEnds, List.map_reverse, List.sum_reverse, innerLineEnds]

theorem lineEnds_concat (text : Bytes) (b : UInt8) :
    lineEnds (text ++ [b]) = lineEnds text + if endsLine text b then 1 else 0 := by
  rw [lineEnds, places_concat, List.length_append, lineEnds]
  split <;> rfl

example : lineEnds [0x0D, 0x0A, 0x0A, 0x0D] = 3 := by decide

theorem emptyLines_concat (text : Bytes) (b : UInt8) :
    emptyLines (text ++ [b]) = emptyLines text + if endsEmptyLine text b then 1 else 0 := by
  rw [emptyLines, places_concat, List.length_append, emptyLines]
  split <;> rfl

theorem scan_concat (text : Bytes) (b : UInt8) : scan (text ++ [b]) = (scan text).next b := by
  rw [scan, List.foldl_append]
  rfl

end Counting

namespace Scan

/-- All that one more byte can do to what a reader holds. -/
inductive Takes (s : Scan) (b : UInt8) : Scan → Prop
  | emptyLine (start : s.position = .recordStart) (ends : endsRecord b = true) : Takes s b s
  | opens (start : s.AtStart) (quoted : b = quote) : Takes s b { s with position := .quoted }
  | field (outside : s.position ≠ .quoted) (separates : b = comma) : Takes s b s.endField
  | record (outside : s.position ≠ .quoted) (inRecord : s.position ≠ .recordStart)
      (ends : endsRecord b = true) : Takes s b s.endRecord
  | plain (outside : s.position ≠ .quoted) (inside : endsRecord b = false) :
      Takes s b (s.push b .unquoted)
  | quoted (inQuotes : s.position = .quoted) : Takes s b (s.push b .quoted)
  | closes (inQuotes : s.position = .quoted) (quoted : b = quote) :
      Takes s b { s with position := .closed }
  | doubled (closed : s.position = .closed) (quoted : b = quote) : Takes s b (s.push b .quoted)

theorem takes_nextPlain {s : Scan} {b : UInt8} (outside : s.position ≠ .quoted)
    (apart : s.position = .recordStart → endsRecord b = false) : s.Takes b (s.nextPlain b) := by
  rw [nextPlain]
  split
  · next separates => exact .field outside (by simpa using separates)
  · split
    · next ends =>
        refine .record outside (fun start => ?_) ends
        rw [apart start] at ends
        cases ends
    · next inside => exact .plain outside (Bool.not_eq_true _ ▸ inside)

theorem takes_next (s : Scan) (b : UInt8) : s.Takes b (s.next b) := by
  rw [next]
  split
  · next position =>
      split
      · next ends => exact .emptyLine position ends
      · next inside =>
          split
          · next quoted => exact .opens (.inl position) (by simpa using quoted)
          · exact takes_nextPlain (by simp [position]) fun _ => Bool.not_eq_true _ ▸ inside
  · next position =>
      split
      · next quoted => exact .opens (.inr position) (by simpa using quoted)
      · exact takes_nextPlain (by simp [position]) (by simp [position])
  · next position => exact takes_nextPlain (by simp [position]) (by simp [position])
  · next position =>
      split
      · next quoted => exact .closes position (by simpa using quoted)
      · exact .quoted position
  · next position =>
      split
      · next quoted => exact .doubled position (by simpa using quoted)
      · exact takes_nextPlain (by simp [position]) (by simp [position])

end Scan

section Counted

/-- The number of line ends in the fields that a reader holds. -/
def Scan.heldLineEnds (s : Scan) : Nat :=
  (s.records.map innerLineEnds).sum + innerLineEnds s.fields + lineEnds s.bytes.reverse

/-- What a reader holds after a text, as far as it tells whether the next byte ends a line. -/
structure Tracks (text : Bytes) (s : Scan) : Prop where
  between : s.position = .recordStart → s.fields = []
  start : s.AtStart → s.bytes = []
  outside : s.position ≠ .quoted → s.position ≠ .recordStart →
    text.getLast? ≠ some carriageReturn
  inQuotes : s.position = .quoted →
    (text.getLast? = some carriageReturn ↔ s.bytes.head? = some carriageReturn)

theorem tracks_nil : Tracks [] {} where
  between _ := rfl
  start _ := rfl
  outside _ inRecord := absurd rfl inRecord
  inQuotes := by simp

variable {text : Bytes} {s s' : Scan} {b : UInt8}

theorem Tracks.takes (tracks : Tracks text s) (takes : s.Takes b s') : Tracks (text ++ [b]) s' := by
  cases takes with
  | emptyLine start ends =>
      refine ⟨tracks.between, tracks.start, fun _ inRecord => absurd start inRecord, ?_⟩
      rw [start]
      simp
  | opens start quoted =>
      refine ⟨by simp, by simp [Scan.AtStart], by simp, fun _ => ?_⟩
      simp [tracks.start start, quoted, quote, carriageReturn]
  | field outside separates =>
      refine ⟨by simp [Scan.endField], fun _ => rfl, fun _ _ => ?_, by simp [Scan.endField]⟩
      simp [separates, comma, carriageReturn]
  | record outside inRecord ends =>
      exact ⟨fun _ => rfl, fun _ => rfl, fun _ inRecord => absurd rfl inRecord,
        by simp [Scan.endRecord]⟩
  | plain outside inside =>
      refine ⟨by simp [Scan.push], by simp [Scan.AtStart, Scan.push], fun _ _ => ?_,
        by simp [Scan.push]⟩
      rw [List.getLast?_concat]
      rintro ⟨rfl⟩
      cases inside
  | quoted inQuotes =>
      exact ⟨by simp [Scan.push], by simp [Scan.AtStart, Scan.push],
        fun outside => absurd rfl outside, fun _ => by simp [Scan.push]⟩
  | closes inQuotes quoted =>
      refine ⟨by simp, by simp [Scan.AtStart], fun _ _ => ?_, by simp⟩
      simp [quoted, quote, carriageReturn]
  | doubled closed quoted =>
      exact ⟨by simp [Scan.push], by simp [Scan.AtStart, Scan.push],
        fun outside => absurd rfl outside, fun _ => by simp [Scan.push]⟩

theorem tracks_scan (text : Bytes) : Tracks text (scan text) := by
  induction text using List.reverseRecOn with
  | nil => exact tracks_nil
  | append_singleton text b ih =>
      rw [scan_concat]
      exact ih.takes (Scan.takes_next _ b)

/-- A byte outside of quotes that ends a record ends a line. -/
theorem Tracks.endsLine_of_record (tracks : Tracks text s) (outside : s.position ≠ .quoted)
    (inRecord : s.position ≠ .recordStart) (ends : endsRecord b = true) :
    endsLine text b = true := by
  have last := tracks.outside outside inRecord
  simp [endsLine, ends, last]

/-- A byte in quotes ends a line of the text if it ends one of the field. -/
theorem Tracks.endsLine_quoted (tracks : Tracks text s) (quoted : s.position = .quoted)
    (b : UInt8) : endsLine text b = endsLine s.bytes.reverse b := by
  have last : (text.getLast? == some carriageReturn) =
      (s.bytes.reverse.getLast? == some carriageReturn) := by
    rw [List.getLast?_reverse, Bool.eq_iff_iff, beq_iff_eq, beq_iff_eq]
    exact tracks.inQuotes quoted
  rw [endsLine, endsLine, last]

/-- A byte that ends no record ends no line either. -/
theorem counts_of_inside (inside : endsRecord b = false) (text : Bytes) :
    lineEnds (text ++ [b]) = lineEnds text ∧ emptyLines (text ++ [b]) = emptyLines text := by
  rw [lineEnds_concat, emptyLines_concat, endsEmptyLine, endsLine, inside]
  simp

theorem Scan.heldLineEnds_push (inside : endsRecord b = false) (position : Position) :
    (s.push b position).heldLineEnds = s.heldLineEnds := by
  rw [heldLineEnds, heldLineEnds, push, List.reverse_cons, (counts_of_inside inside _).1]

theorem Scan.heldLineEnds_endField (s : Scan) : s.endField.heldLineEnds = s.heldLineEnds := by
  simp only [heldLineEnds, endField, innerLineEnds_cons, List.reverse_nil, lineEnds_nil]
  omega

theorem Scan.heldLineEnds_endRecord (s : Scan) : s.endRecord.heldLineEnds = s.heldLineEnds := by
  simp only [heldLineEnds, endRecord, List.map_cons, List.sum_cons, innerLineEnds_reverse,
    innerLineEnds_cons, innerLineEnds_nil, List.reverse_nil, lineEnds_nil]
  omega

/-- A byte within a record belongs to no empty line. -/
theorem emptyLines_of_inRecord (inRecord : (scan text).position ≠ .recordStart) (b : UInt8) :
    emptyLines (text ++ [b]) = emptyLines text := by
  rw [emptyLines_concat, endsEmptyLine, beq_false_of_ne inRecord]
  simp

/-- Whether the line ends of a text are those of records, of empty lines and in fields. -/
def Counted (text : Bytes) (s : Scan) : Prop :=
  lineEnds text = s.records.length + emptyLines text + s.heldLineEnds

/-- A byte that ends no record leaves the count as it is. -/
theorem Counted.of_inside (counted : Counted text s) (inside : endsRecord b = false)
    (records : s'.records.length = s.records.length) (held : s'.heldLineEnds = s.heldLineEnds) :
    Counted (text ++ [b]) s' := by
  obtain ⟨lines, empty⟩ := counts_of_inside inside text
  rw [Counted, lines, empty, records, held]
  exact counted

/-- One more byte is counted where the reader takes it. -/
theorem Counted.takes (counted : Counted text (scan text)) (takes : (scan text).Takes b s) :
    Counted (text ++ [b]) s := by
  have tracks := tracks_scan text
  cases takes with
  | emptyLine start ends =>
      have empty : endsEmptyLine text b = endsLine text b := by simp [endsEmptyLine, start]
      rw [Counted] at counted ⊢
      rw [lineEnds_concat, emptyLines_concat, empty, counted]
      omega
  | opens start quoted => exact counted.of_inside (quoted ▸ rfl) rfl rfl
  | field outside separates =>
      exact counted.of_inside (separates ▸ rfl) rfl (Scan.heldLineEnds_endField _)
  | record outside inRecord ends =>
      rw [Counted] at counted ⊢
      rw [lineEnds_concat, tracks.endsLine_of_record outside inRecord ends, if_pos rfl, counted,
        emptyLines_of_inRecord inRecord, Scan.heldLineEnds_endRecord, Scan.endRecord,
        List.length_cons]
      omega
  | plain outside inside => exact counted.of_inside inside rfl (Scan.heldLineEnds_push inside _)
  | quoted inQuotes =>
      have inRecord : (scan text).position ≠ .recordStart := by rw [inQuotes]; decide
      rw [Counted] at counted ⊢
      rw [lineEnds_concat, tracks.endsLine_quoted inQuotes, emptyLines_of_inRecord inRecord,
        counted]
      simp only [Scan.heldLineEnds, Scan.push, List.reverse_cons, lineEnds_concat]
      omega
  | closes inQuotes quoted => exact counted.of_inside (quoted ▸ rfl) rfl rfl
  | doubled closed quoted =>
      have inside : endsRecord b = false := quoted ▸ rfl
      exact counted.of_inside inside rfl (Scan.heldLineEnds_push inside _)

theorem counted_scan (text : Bytes) : Counted text (scan text) := by
  induction text using List.reverseRecOn with
  | nil => rfl
  | append_singleton text b ih =>
      rw [scan_concat]
      exact ih.takes (Scan.takes_next _ b)

/-- Between two records each line end has ended a record, or is that of an empty line, or stands in
a field. -/
theorem lineEnds_of_between (between : (scan text).position = .recordStart) :
    lineEnds text = (scan text).records.length + emptyLines text +
      ((scan text).records.map innerLineEnds).sum := by
  have tracks := tracks_scan text
  have counted : lineEnds text = _ := counted_scan text
  rw [counted, Scan.heldLineEnds, tracks.between between, tracks.start (.inl between)]
  rfl

end Counted

section Begins

namespace Scan

/-- What a reader does next does not depend on the records that it has finished. -/
theorem next_append (s : Scan) (before : List (List Bytes)) (b : UInt8) :
    next { s with records := s.records ++ before } b =
      { s.next b with records := (s.next b).records ++ before } := by
  obtain ⟨records, fields, bytes, position⟩ := s
  cases position <;> simp only [next, nextPlain, push, endField, endRecord] <;> split_ifs <;> rfl

theorem foldl_next_append (s : Scan) (before : List (List Bytes)) (text : Bytes) :
    text.foldl next { s with records := s.records ++ before } =
      { text.foldl next s with records := (text.foldl next s).records ++ before } := by
  induction text generalizing s with
  | nil => rfl
  | cons b rest ih =>
      rw [List.foldl_cons, next_append, ih]
      rfl

theorem finish_append (s : Scan) (before : List (List Bytes)) :
    finish { s with records := s.records ++ before } = before.reverse ++ s.finish := by
  obtain ⟨records, fields, bytes, position⟩ := s
  cases position <;> simp [finish, endRecord]

/-- If the text ended here, the records would be those that have begun. -/
theorem length_finish (s : Scan) :
    s.finish.length = s.records.length + if s.position = .recordStart then 0 else 1 := by
  obtain ⟨records, fields, bytes, position⟩ := s
  cases position <;> simp [finish, endRecord]

/-- A byte that takes the reader into a record begins this record if the reader was in none. -/
theorem length_finish_of_inRecord {s s' : Scan} {b : UInt8} (inside : endsRecord b = false)
    (records : s'.records = s.records) (inRecord : s'.position ≠ .recordStart) :
    s'.finish.length =
      s.finish.length + if s.position = .recordStart ∧ endsRecord b = false then 1 else 0 := by
  rw [length_finish, length_finish, records, if_neg inRecord]
  by_cases start : s.position = .recordStart
  · rw [if_pos start, if_pos ⟨start, inside⟩]
  · rw [if_neg start, if_neg fun both => start both.1]

/-- One more byte begins a record only where the reader stands between records. -/
theorem Takes.length_finish {s s' : Scan} {b : UInt8} (takes : s.Takes b s') :
    s'.finish.length =
      s.finish.length + if s.position = .recordStart ∧ endsRecord b = false then 1 else 0 := by
  cases takes with
  | emptyLine start ends => simp [ends]
  | opens start quoted => exact length_finish_of_inRecord (quoted ▸ rfl) rfl (by simp)
  | field outside separates =>
      exact length_finish_of_inRecord (separates ▸ rfl) rfl (by simp [endField])
  | record outside inRecord ends => simp [Scan.length_finish, endRecord, inRecord]
  | plain outside inside => exact length_finish_of_inRecord inside rfl (by simp [push])
  | quoted inQuotes => simp [Scan.length_finish, push, inQuotes]
  | closes inQuotes quoted => exact length_finish_of_inRecord (quoted ▸ rfl) rfl (by simp)
  | doubled closed quoted => exact length_finish_of_inRecord (quoted ▸ rfl) rfl (by simp [push])

end Scan

theorem length_finish_concat (text : Bytes) (b : UInt8) :
    (scan (text ++ [b])).finish.length = (scan text).finish.length +
      if (scan text).position = .recordStart ∧ endsRecord b = false then 1 else 0 := by
  rw [scan_concat, (Scan.takes_next _ b).length_finish]

/-- The more of a text is read, the more records have begun. -/
theorem length_finish_append_le (text more : Bytes) :
    (scan text).finish.length ≤ (scan (text ++ more)).finish.length := by
  induction more using List.reverseRecOn with
  | nil => rw [List.append_nil]
  | append_singleton more b ih =>
      rw [← List.append_assoc, length_finish_concat]
      exact Nat.le_add_right_of_le ih

/-- What follows between two records is read by itself. -/
theorem finish_scan_append {before : Bytes} (between : (scan before).position = .recordStart)
    (rest : Bytes) :
    (scan (before ++ rest)).finish = (scan before).records.reverse ++ (scan rest).finish := by
  have tracks := tracks_scan before
  have held : scan before = { records := [] ++ (scan before).records } := by
    have fields := tracks.between between
    have bytes := tracks.start (.inl between)
    generalize scan before = s at between fields bytes
    cases s
    cases between
    cases fields
    cases bytes
    rfl
  have goesOn : scan (before ++ rest) = rest.foldl Scan.next (scan before) := List.foldl_append
  rw [goesOn, held, Scan.foldl_next_append {} _ rest, Scan.finish_append]
  rfl

/-- Each record of a text begins somewhere. -/
theorem exists_cut {text : Bytes} {number : Nat} (inside : number < (scan text).finish.length) :
    ∃ before rest, text = before ++ rest ∧ (scan before).position = .recordStart ∧
      (scan before).records.length = number ∧ ∃ b ∈ rest.head?, endsRecord b = false := by
  induction text using List.reverseRecOn with
  | nil => cases inside
  | append_singleton text b ih =>
      by_cases earlier : number < (scan text).finish.length
      · obtain ⟨before, rest, rfl, between, taken, first, head, begins⟩ := ih earlier
        refine ⟨before, rest ++ [b], List.append_assoc _ _ _, between, taken, first, ?_, begins⟩
        rw [List.head?_append, Option.mem_def.mp head]
        rfl
      · rw [length_finish_concat] at inside
        split at inside
        · next start =>
            have taken := Scan.length_finish (scan text)
            rw [if_pos start.1] at taken
            exact ⟨text, [b], rfl, start.1, by omega, b, rfl, start.2⟩
        · exact absurd inside earlier

theorem exists_beginsAfter {text : Bytes} {number : Nat} (inside : number < (parse text).length) :
    ∃ before rest, BeginsAfter text number before rest := by
  have inside : number < (scan (dropMark text)).finish.length := inside
  obtain ⟨before, rest, whole, between, taken, begins⟩ := exists_cut inside
  refine ⟨before, rest, whole, between, taken, begins, ?_⟩
  have records : parse text = (scan before).records.reverse ++ (scan rest).finish := by
    rw [← finish_scan_append between, ← whole]
    rfl
  rw [records, List.drop_left' (by rw [List.length_reverse, taken])]

/-- Nothing stands between two places where one record begins. -/
theorem BeginsAfter.eq_nil_of_longer {text before more rest : Bytes} {number : Nat}
    (begins : BeginsAfter text number before (more ++ rest))
    (longer : BeginsAfter text number (before ++ more) rest) : more = [] := by
  cases more with
  | nil => rfl
  | cons b more =>
      obtain ⟨first, head, inside⟩ := begins.begins
      cases head
      -- the byte begins one more record than the reader has found
      have one := length_finish_concat before b
      have all := length_finish_append_le (before ++ [b]) more
      rw [if_pos ⟨begins.between, inside⟩, Scan.length_finish (scan before),
        if_pos begins.between, begins.taken] at one
      rw [List.append_assoc, List.singleton_append, Scan.length_finish (scan (before ++ b :: more)),
        if_pos longer.between, longer.taken] at all
      omega

/-- A record begins in one place. -/
theorem BeginsAfter.before_eq {text before before' rest rest' : Bytes} {number : Nat}
    (begins : BeginsAfter text number before rest)
    (begins' : BeginsAfter text number before' rest') : before = before' := by
  rcases List.append_eq_append_iff.mp (begins.whole.symm.trans begins'.whole) with
    ⟨more, rfl, rfl⟩ | ⟨more, rfl, rfl⟩
  · rw [begins.eq_nil_of_longer begins', List.append_nil]
  · rw [begins'.eq_nil_of_longer begins, List.append_nil]

/-- The records before a record are those that come before it in the text. -/
theorem BeginsAfter.records_eq {text before rest : Bytes} {number : Nat}
    (begins : BeginsAfter text number before rest) :
    (scan before).records.reverse = (parse text).take number := by
  have records : parse text = (scan before).records.reverse ++ (scan rest).finish := by
    rw [← finish_scan_append begins.between, ← begins.whole]
    rfl
  rw [records, List.take_left' (by rw [List.length_reverse, begins.taken])]

/-- The line on which a record begins: besides the records before it, all empty lines and all line
ends in fields are to be counted. -/
theorem BeginsAfter.lineEnds_eq {text before rest : Bytes} {number : Nat}
    (begins : BeginsAfter text number before rest) :
    lineEnds before = number + emptyLines before +
      (((parse text).take number).map innerLineEnds).sum := by
  rw [lineEnds_of_between begins.between, begins.taken, ← begins.records_eq, List.map_reverse,
    List.sum_reverse]

end Begins

end Csv

end SpeedupStudy
