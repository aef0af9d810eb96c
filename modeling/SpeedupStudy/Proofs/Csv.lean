/-
# Reading back a written table

The reader takes a written field back byte by byte: an unquoted field byte for byte, a quoted one
with its doubled quotes made single. What ends the field then ends it wherever the field has left
the reader, so records follow from fields and tables from records.
-/

import SpeedupStudy.Csv
import SpeedupStudy.Proofs.Text.Pieces

namespace SpeedupStudy

namespace Csv

open Text

namespace Scan

/-- Whether a reader stands before a field. -/
def AtStart (s : Scan) : Prop :=
  s.position = .recordStart ∨ s.position = .fieldStart

theorem next_comma {s : Scan} (outside : s.position ≠ .quoted) : s.next comma = s.endField := by
  cases position : s.position with
  | quoted => exact absurd position outside
  | recordStart => simp [next, nextPlain, position, comma, quote, endsRecord, lineFeed, carriageReturn]
  | fieldStart => simp [next, nextPlain, position, comma, quote]
  | unquoted => simp [next, nextPlain, position]
  | closed => simp [next, nextPlain, position, comma, quote]

theorem next_lineFeed {s : Scan} (outside : s.position ≠ .quoted)
    (inRecord : s.position ≠ .recordStart) : s.next lineFeed = s.endRecord := by
  cases position : s.position with
  | quoted => exact absurd position outside
  | recordStart => exact absurd position inRecord
  | fieldStart => simp [next, nextPlain, position, comma, quote, endsRecord, lineFeed]
  | unquoted => simp [next, nextPlain, position, comma, endsRecord, lineFeed]
  | closed => simp [next, nextPlain, position, comma, quote, endsRecord, lineFeed]

/-- A byte that needs no quotes belongs to the field wherever the reader stands. -/
theorem next_plain {s : Scan} {b : UInt8} (plain : needsQuotes b = false)
    (unquoted : s.AtStart ∨ s.position = .unquoted) : s.next b = s.push b .unquoted := by
  simp only [needsQuotes, Bool.or_eq_false_iff] at plain
  obtain ⟨⟨comma, quote⟩, record⟩ := plain
  rcases unquoted with (position | position) | position <;>
    simp [next, nextPlain, position, comma, quote, record]

theorem foldl_next_unquoted {s : Scan} {field : Bytes} (position : s.position = .unquoted)
    (plain : ∀ b ∈ field, needsQuotes b = false) :
    field.foldl next s = { s with bytes := field.reverse ++ s.bytes } := by
  induction field generalizing s with
  | nil => rfl
  | cons b rest ih =>
      have here := next_plain (plain b List.mem_cons_self) (.inr position)
      rw [List.foldl_cons, here, ih rfl fun c mem => plain c (List.mem_cons_of_mem b mem)]
      simp [push, position]

/-- In a quoted field a doubled quote is one quote, and every other byte is itself. -/
theorem foldl_next_quoted {s : Scan} (position : s.position = .quoted) (field : Bytes) :
    (field.flatMap fun b => if b == quote then [quote, quote] else [b]).foldl next s =
      { s with bytes := field.reverse ++ s.bytes } := by
  induction field generalizing s with
  | nil => rfl
  | cons b rest ih =>
      have here : (if b == quote then [quote, quote] else [b]).foldl next s = s.push b .quoted := by
        by_cases quoted : b = quote
        · subst quoted
          simp [next, position, push]
        · simp [next, position, quoted]
      rw [List.flatMap_cons, List.foldl_append, here, ih rfl]
      simp [push, position]

/-- After a written field the reader holds the field. It still stands before a record only if there
was nothing to read. -/
theorem foldl_next_fieldText {s : Scan} (start : s.AtStart) (empty : s.bytes = []) (field : Bytes) :
    ∃ position, (fieldText field).foldl next s = { s with bytes := field.reverse, position } ∧
      position ≠ .quoted ∧ (position = .recordStart → s.position = .recordStart ∧ field = []) := by
  by_cases quoted : field.any needsQuotes = true
  · refine ⟨.closed, ?_, by decide, nofun⟩
    have opening : s.next quote = { s with position := .quoted } := by
      rcases start with position | position <;>
        simp [next, position, endsRecord, quote, lineFeed, carriageReturn]
    rw [fieldText, if_pos quoted, List.foldl_cons, opening, List.foldl_append,
      foldl_next_quoted rfl]
    simp [next, empty]
  · have plain : ∀ b ∈ field, needsQuotes b = false := by simpa using quoted
    rw [fieldText, if_neg quoted]
    cases field with
    | nil =>
        refine ⟨s.position, ?_, ?_, fun position => ⟨position, rfl⟩⟩
        · cases s
          cases empty
          rfl
        · rcases start with position | position <;> simp [position]
    | cons b rest =>
        refine ⟨.unquoted, ?_, by decide, nofun⟩
        have here := next_plain (plain b List.mem_cons_self) (.inl start)
        rw [List.foldl_cons, here,
          foldl_next_unquoted rfl fun c mem => plain c (List.mem_cons_of_mem b mem)]
        simp [push, empty]

/-- After some fields with commas between them and a line feed the reader holds the record. -/
theorem foldl_next_fields {s : Scan} (start : s.AtStart) (empty : s.bytes = [])
    {record : List Bytes} (nonempty : record ≠ [])
    (inRecord : s.position = .recordStart → record ≠ [[]]) :
    (join comma (record.map fieldText) ++ [lineFeed]).foldl next s =
      ⟨(s.fields.reverse ++ record) :: s.records, [], [], .recordStart⟩ := by
  induction record generalizing s with
  | nil => exact absurd rfl nonempty
  | cons field rest ih =>
      obtain ⟨position, read, outside, nothing⟩ := foldl_next_fieldText start empty field
      cases rest with
      | nil =>
          have left : position ≠ .recordStart := by
            intro stays
            obtain ⟨before, rfl⟩ := nothing stays
            exact inRecord before rfl
          rw [List.map_singleton, join_singleton, List.foldl_append, read, List.foldl_cons,
            List.foldl_nil, next_lineFeed outside left]
          simp [endRecord]
      | cons second others =>
          have later := ih (s := ({ s with bytes := field.reverse, position } : Scan).endField)
            (.inr rfl) rfl (by simp) nofun
          rw [List.map_cons, join_cons (by simp), List.append_assoc, List.cons_append,
            List.foldl_append, read, List.foldl_cons, next_comma outside, later]
          simp [endField]

/-- After a written record and its line feed the reader holds the record. -/
theorem foldl_next_recordText {s : Scan} (position : s.position = .recordStart)
    (fields : s.fields = []) (empty : s.bytes = []) {record : List Bytes} (nonempty : record ≠ []) :
    (recordText record ++ [lineFeed]).foldl next s =
      { s with records := record :: s.records } := by
  obtain ⟨records, _, _, _⟩ := s
  cases position
  cases fields
  cases empty
  unfold recordText
  by_cases blank : record = [[]]
  · subst blank
    rfl
  · rw [if_neg (by simpa using blank), foldl_next_fields (.inl rfl) rfl nonempty fun _ => blank]
    rfl

end Scan

theorem recordText_cons (field : Bytes) {rest : List Bytes} (nonempty : rest ≠ []) :
    recordText (field :: rest) = fieldText field ++ comma :: join comma (rest.map fieldText) := by
  have several : (field :: rest == [[]]) = false := by
    simp [nonempty]
  rw [recordText, several, if_neg Bool.false_ne_true, List.map_cons, join_cons (by simpa)]

/-- A table breaks off in the first record of another length, and nowhere else. -/
theorem renderAll_snd (length : Nat) (records : List (List Bytes)) :
    (renderAll length records).2 =
      (records.find? fun record => record.length ≠ length).map fun record =>
        ⟨length, record.length⟩ := by
  induction records with
  | nil => rfl
  | cons record rest ih =>
      by_cases same : record.length = length
      · rw [renderAll, if_pos same, List.find?_cons_of_neg (by simp [same])]
        exact ih
      · rw [renderAll, if_neg same, List.find?_cons_of_pos (by simp [same])]
        rfl

/-- After a written table the reader holds its records. -/
theorem foldl_next_renderAll {length : Nat} (positive : 0 < length) {records : List (List Bytes)}
    (uniform : ∀ record ∈ records, record.length = length) (before : List (List Bytes)) :
    (renderAll length records).1.foldl Scan.next { records := before } =
      { records := records.reverse ++ before } := by
  induction records generalizing before with
  | nil => rfl
  | cons record rest ih =>
      have here := uniform record List.mem_cons_self
      have nonempty : record ≠ [] := List.ne_nil_of_length_pos (here ▸ positive)
      have lineEnd (text : Bytes) : recordText record ++ lineFeed :: text =
          (recordText record ++ [lineFeed]) ++ text := by
        simp
      rw [renderAll, if_pos here]
      simp only
      rw [lineEnd, List.foldl_append, Scan.foldl_next_recordText rfl rfl rfl nonempty,
        ih (fun other mem => uniform other (List.mem_cons_of_mem record mem)) (record :: before)]
      simp

/-- What the writer makes of records of one length, the reader reads back, unless the text starts
like a byte order mark. -/
theorem parse_renderAll {length : Nat} (positive : 0 < length) {records : List (List Bytes)}
    (uniform : ∀ record ∈ records, record.length = length)
    (unmarked : byteOrderMark.isPrefixOf (renderAll length records).1 = false) :
    parse (renderAll length records).1 = records := by
  have whole : dropMark (renderAll length records).1 = (renderAll length records).1 := by
    simp [dropMark, unmarked]
  rw [parse, whole, foldl_next_renderAll positive uniform]
  simp [Scan.finish]

end Csv

end SpeedupStudy
