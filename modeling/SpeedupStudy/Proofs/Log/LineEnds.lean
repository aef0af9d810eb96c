/-
# The ends of the lines of a log

A line is read with the characters that end it, and each field drops them in its own way: the words
of a core line are cut at blanks, the total is a piece between single spaces without the blanks
around it, and the rate goes up to a parenthesis or to the end of the line. So carriage returns
before the line feeds tell nothing, and neither does a line feed after the last line, whatever bytes
stand before them. The fault marker is the one text that could hold such a character.
-/

import SpeedupStudy.Proofs.Log.Written

namespace SpeedupStudy

namespace LogScan

variable {marker : String}

/-- An empty line tells nothing. -/
theorem next_nil (scan : LogScan) : next marker scan [] = scan := by
  have core : LogLine.hasMarker LogLine.coreMarker [] = false := LogLine.hasMarker_nil (by decide)
  have total : LogLine.hasMarker LogLine.totalMarker [] = false := LogLine.hasMarker_nil (by decide)
  have ipc : LogLine.hasMarker LogLine.ipcMarker [] = false := LogLine.hasMarker_nil (by decide)
  have fault : (marker != "" && LogLine.hasMarker marker []) = false := by
    by_cases empty : marker = ""
    · simp [empty]
    · have nowhere : LogLine.hasMarker marker [] = false :=
        LogLine.hasMarker_nil (by simpa using empty)
      simp [nowhere]
  simp [next, core, total, ipc, fault]

/-- A character that ends a line tells nothing. -/
theorem next_concat {c : Char} (ends : LogLine.IsLineEnd c) (plain : c ∉ marker.toList)
    (scan : LogScan) (line : List Char) :
    next marker scan (line ++ [c]) = next marker scan line := by
  have unmarked : ∀ marker ∈ [LogLine.coreMarker, LogLine.totalMarker, LogLine.ipcMarker],
      c ∉ marker.toList := by
    rcases ends with rfl | rfl <;> decide
  rw [next, LogLine.hasMarker_concat line (unmarked _ (by simp)),
    LogLine.hasMarker_concat line (unmarked _ (by simp)),
    LogLine.hasMarker_concat line (unmarked _ (by simp)), LogLine.hasMarker_concat line plain,
    LogLine.coreInstructions_concat ends, LogLine.totalInstructions_concat ends,
    LogLine.ipc_concat ends]
  rfl

/-- A byte that ends a line tells nothing, whatever bytes come before it. -/
theorem next_decodeLossy_concat {b : UInt8} (ends : LogLine.IsLineEnd (Char.ofNat b.toNat))
    (ascii : b < 0x80) (plain : Char.ofNat b.toNat ∉ marker.toList) (scan : LogScan)
    (line : Bytes) :
    next marker scan (Utf8.decodeLossy (line ++ [b])) =
      next marker scan (Utf8.decodeLossy line) := by
  rw [Utf8.decodeLossy_concat line ascii, next_concat ends plain]

variable {lines : List Bytes} {last : Bytes}

/-- A log is scanned like its lines without the line feeds that end them. -/
theorem ofBytes_lines (plain : '\n' ∉ marker.toList)
    (oneLine : ∀ line ∈ lines ++ [last], 0x0A ∉ line) :
    ofBytes marker (lines.flatMap (· ++ [0x0A]) ++ last) =
      (lines ++ [last]).foldl (fun scan line => next marker scan (Utf8.decodeLossy line)) {} := by
  have ended : ∀ scan line, next marker scan (Utf8.decodeLossy (line ++ [0x0A])) =
      next marker scan (Utf8.decodeLossy line) :=
    next_decodeLossy_concat (.inr rfl) (by decide) plain
  rw [ofBytes, lines_eq oneLine, List.foldl_map, List.foldl_append, List.foldl_append,
    List.foldl_map]
  simp only [ended]
  cases last with
  | nil => exact (next_nil _).symm
  | cons b last => rfl

/-- Carriage returns at the ends of the lines tell nothing. -/
theorem ofBytes_carriageReturns (plain : '\r' ∉ marker.toList ∧ '\n' ∉ marker.toList)
    (oneLine : ∀ line ∈ lines ++ [last], 0x0A ∉ line) :
    ofBytes marker (lines.flatMap (· ++ [0x0D, 0x0A]) ++ last) =
      ofBytes marker (lines.flatMap (· ++ [0x0A]) ++ last) := by
  have returned : ∀ scan line, next marker scan (Utf8.decodeLossy (line ++ [0x0D])) =
      next marker scan (Utf8.decodeLossy line) :=
    next_decodeLossy_concat (.inl rfl) (by decide) plain.1
  have text : lines.flatMap (· ++ [0x0D, 0x0A]) =
      (lines.map (· ++ [0x0D])).flatMap (· ++ [0x0A]) := by
    simp [List.flatMap_map]
  have oneLine' : ∀ line ∈ lines.map (· ++ [0x0D]) ++ [last], 0x0A ∉ line := by
    intro line mem
    rcases List.mem_append.mp mem with mem | mem
    · obtain ⟨front, listed, rfl⟩ := List.mem_map.mp mem
      simpa using oneLine front (List.mem_append_left _ listed)
    · exact oneLine line (List.mem_append_right _ mem)
  rw [text, ofBytes_lines plain.2 oneLine', ofBytes_lines plain.2 oneLine, List.foldl_append,
    List.foldl_append, List.foldl_map]
  simp only [returned]

/-- A line feed after the last line tells nothing. -/
theorem ofBytes_concat (plain : '\n' ∉ marker.toList) (log : Bytes) :
    ofBytes marker (log ++ [0x0A]) = ofBytes marker log := by
  obtain ⟨lines, last, oneLine, rfl⟩ := Text.exists_lines 0x0A log
  have text : lines.flatMap (· ++ [0x0A]) ++ last ++ [0x0A] =
      (lines ++ [last]).flatMap (· ++ [0x0A]) ++ [] := by
    simp
  have oneLine' : ∀ line ∈ lines ++ [last] ++ [[]], 0x0A ∉ line := by
    intro line mem
    rcases List.mem_append.mp mem with mem | mem
    · exact oneLine line mem
    · simp [List.mem_singleton.mp mem]
  rw [text, ofBytes_lines plain oneLine', ofBytes_lines plain oneLine, List.foldl_append]
  exact next_nil _

end LogScan

/-- A log with a carriage return before each line feed. -/
def withCarriageReturns (log : Bytes) : Bytes :=
  log.flatMap fun b => if b = 0x0A then [0x0D, 0x0A] else [b]

theorem withCarriageReturns_of_oneLine {line : Bytes} (oneLine : 0x0A ∉ line) :
    withCarriageReturns line = line := by
  have kept : ∀ b ∈ line, (if b = 0x0A then [0x0D, 0x0A] else [b]) = [b] := by
    intro b mem
    exact if_neg fun (same : b = 0x0A) => oneLine (same ▸ mem)
  rw [withCarriageReturns, List.flatMap_congr kept]
  exact List.flatMap_singleton' line

theorem withCarriageReturns_lines {lines : List Bytes} {last : Bytes}
    (oneLine : ∀ line ∈ lines ++ [last], 0x0A ∉ line) :
    withCarriageReturns (lines.flatMap (· ++ [0x0A]) ++ last) =
      lines.flatMap (· ++ [0x0D, 0x0A]) ++ last := by
  induction lines with
  | nil => exact withCarriageReturns_of_oneLine (oneLine last (by simp))
  | cons line lines ih =>
      rw [List.cons_append, List.forall_mem_cons] at oneLine
      have first := withCarriageReturns_of_oneLine oneLine.1
      have rest := ih oneLine.2
      simp only [withCarriageReturns, List.flatMap_cons, List.flatMap_append, List.append_assoc,
        List.flatMap_nil, List.append_nil, if_true] at first rest ⊢
      rw [first, rest]

namespace LogReader

/-- The ends of the lines make no difference to what is read of a log: carriage returns before the
line feeds change nothing, whatever carriage returns and bytes that are no text stand there already,
and neither does a line feed that is put after the last line or taken away there. The fault marker
must hold neither character. All of these logs are read unless the machine has more cores than
memory can list, and then none of them is. -/
theorem read?_lineEnds (reader : LogReader)
    (plain : '\r' ∉ reader.faultMarker.toList ∧ '\n' ∉ reader.faultMarker.toList) (log : Bytes) :
    reader.read? (withCarriageReturns log) = reader.read? log ∧
      reader.read? (log ++ [0x0A]) = reader.read? log ∧
      (fitsInMemory numberSize reader.coreCount = true →
        ∃ contents, reader.read? log = .ok contents) := by
  have returned : LogScan.ofBytes reader.faultMarker (withCarriageReturns log) =
      LogScan.ofBytes reader.faultMarker log := by
    obtain ⟨lines, last, oneLine, rfl⟩ := Text.exists_lines 0x0A log
    rw [withCarriageReturns_lines oneLine, LogScan.ofBytes_carriageReturns plain oneLine]
  refine ⟨?_, ?_, fun fits => ⟨_, if_pos fits⟩⟩
  · rw [read?, read, returned]
    rfl
  · rw [read?, read, LogScan.ofBytes_concat plain.2]
    rfl

/-- A log whose fields go up to the ends of the lines, with a carriage return and a cut character
before some of the line feeds and no line feed after its last line. -/
def openFields : Bytes :=
  [0xE2, 0x82, 0x0D, 0x0A] ++ Utf8.encode "-- th[0] : retired 5\nboom" ++ [0xE2, 0x0A] ++
    Utf8.encode "  -- total number of fetched instructions : 200\n(IPC = 1.5"

theorem read?_lineEnds_openFields :
    ('\r' ∉ "boom".toList ∧ '\n' ∉ "boom".toList) ∧
      LogReader.read? ⟨2, "boom"⟩ (withCarriageReturns openFields) =
        .ok ⟨[5, 0], 200, 1.5, true, 1⟩ ∧
      LogReader.read? ⟨2, "boom"⟩ (openFields ++ [0x0A]) = .ok ⟨[5, 0], 200, 1.5, true, 1⟩ := by
  have plain : '\r' ∉ "boom".toList ∧ '\n' ∉ "boom".toList := by decide
  have read : LogReader.read? ⟨2, "boom"⟩ openFields = .ok ⟨[5, 0], 200, 1.5, true, 1⟩ := by
    decide +kernel
  obtain ⟨returned, ended, -⟩ := read?_lineEnds ⟨2, "boom"⟩ plain openFields
  exact ⟨plain, returned.trans read, ended.trans read⟩

end LogReader

end SpeedupStudy
