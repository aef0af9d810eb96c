/-
# Logs that go on

A log that is cut off and continued, or two logs in one file, is read line by line all the same.
Where the first part ends with a line, the whole has the lines of the first part and then those of
the second, each with the text it has in its own part. So the counts of the two parts add up, while
of the total and the rate the second part decides as soon as it has a line with the marker, even one
whose number is malformed and reads as zero. The number of cores has no part in this: it only says
where the counts are cut, or how many zeros are put after them.
-/

import SpeedupStudy.Proofs.Log.Fields
import SpeedupStudy.Proofs.Text.Lines
import SpeedupStudy.Proofs.Text.Occurrence

namespace SpeedupStudy

namespace LogScan

/-- Whether a marker stands in a line of a log. -/
def Carries (marker : String) (log : Bytes) : Prop :=
  ∃ line ∈ lines log, marker.toList <:+: line

theorem any_hasMarker_iff {marker : String} {log : Bytes} :
    (lines log).any (LogLine.hasMarker marker) = true ↔ Carries marker log := by
  simp only [List.any_eq_true, LogLine.hasMarker, Text.occursIn_iff_isInfix, Carries]

instance (marker : String) (log : Bytes) : Decidable (Carries marker log) :=
  decidable_of_iff _ any_hasMarker_iff

/-- What the last line with a marker tells is told by the second of two parts if it has such a line,
and by the first part otherwise. -/
theorem lastOf_append {α : Type} (marker : String) (value : List Char → α) (default : α)
    (first second : List (List Char)) :
    lastOf marker value default (first ++ second) =
      if second.any (LogLine.hasMarker marker) then lastOf marker value default second
      else lastOf marker value default first := by
  rw [lastOf, List.filter_append]
  cases marked : second.any (LogLine.hasMarker marker) with
  | true =>
      obtain ⟨line, listed, found⟩ := List.any_eq_true.mp marked
      have nonempty : second.filter (LogLine.hasMarker marker) ≠ [] :=
        List.ne_nil_of_mem (List.mem_filter.mpr ⟨listed, found⟩)
      rw [List.getLast?_append_of_ne_nil _ nonempty]
      rfl
  | false =>
      have none_left : second.filter (LogLine.hasMarker marker) = [] :=
        List.filter_eq_nil_iff.mpr fun line listed => by
          simpa using List.any_eq_false.mp marked line listed
      rw [none_left, List.append_nil]
      rfl

section Parts

variable {first : Bytes} (ended : first = [] ∨ ∃ front, first = front ++ [0x0A]) (second : Bytes)

include ended

/-- A log that goes on after the end of a line has the lines of both parts. -/
theorem lines_append : lines (first ++ second) = lines first ++ lines second := by
  have closed : ∀ b ∈ first.getLast?, (b == 0x0A) = true := by
    rcases ended with rfl | ⟨front, rfl⟩ <;> simp
  rw [lines, Text.cutAfter_append closed, List.map_append]
  rfl

theorem coreCounts_append :
    coreCounts (first ++ second) = coreCounts first ++ coreCounts second := by
  rw [coreCounts, lines_append ended, List.filter_append, List.map_append]
  rfl

theorem lastTotal_append : lastTotal (first ++ second) =
    if Carries LogLine.totalMarker second then lastTotal second else lastTotal first := by
  rw [lastTotal, lines_append ended, lastOf_append]
  simp only [any_hasMarker_iff, lastTotal]

theorem lastIpc_append : lastIpc (first ++ second) =
    if Carries LogLine.ipcMarker second then lastIpc second else lastIpc first := by
  rw [lastIpc, lines_append ended, lastOf_append]
  simp only [any_hasMarker_iff, lastIpc]

theorem hasFault_append (marker : String) :
    hasFault marker (first ++ second) = (hasFault marker first || hasFault marker second) := by
  rw [hasFault, lines_append ended, List.any_append, Bool.and_or_distrib_left]
  rfl

end Parts

end LogScan

namespace LogReader

open LogScan

/-- What a reader tells of a log in two parts, by what it tells of each of them. -/
structure ReadsOn (reader : LogReader) (first second : Bytes) (earlier later whole : RunLog) :
    Prop where
  coreLines : whole.coreLines = earlier.coreLines + later.coreLines
  fault : whole.fault = (earlier.fault || later.fault)
  total : whole.total =
    if Carries LogLine.totalMarker second then later.total else earlier.total
  ipc : whole.ipc = if Carries LogLine.ipcMarker second then later.ipc else earlier.ipc
  perCore : whole.perCore = fitTo reader.coreCount (coreCounts first ++ coreCounts second)

theorem readsOn_append (reader : LogReader) {first : Bytes}
    (ended : first = [] ∨ ∃ front, first = front ++ [0x0A]) (second : Bytes) :
    reader.ReadsOn first second (reader.read first) (reader.read second)
      (reader.read (first ++ second)) := by
  simp only [read_eq]
  exact {
    coreLines := by rw [coreCounts_append ended, List.length_append]
    fault := hasFault_append ended second reader.faultMarker
    total := lastTotal_append ended second
    ipc := lastIpc_append ended second
    perCore := by rw [coreCounts_append ended] }

/-- Another number of cores cuts the counts of a log elsewhere, and that is all. -/
theorem read_of_coreCount (reader : LogReader) (coreCount : Nat) (log : Bytes) :
    read { reader with coreCount } log =
      { reader.read log with perCore := fitTo coreCount (coreCounts log) } := by
  simp only [read_eq]

/-- A log that goes on after the end of a line is read as both parts together. The number of the
lines of cores is the sum, there is a fault if either part has one, and the total and the rate are
those of the second part if it has a line with the marker, whatever the line tells, and those of the
first part otherwise. The counts are those of the first part and then those of the second, cut or
filled up with zeros to the cores of the machine, and any other number of cores changes nothing but
this. The one exception is a machine with more cores than memory can list, for which no log is
read. -/
theorem read?_append (reader : LogReader) {first : Bytes}
    (ended : first = [] ∨ ∃ front, first = front ++ [0x0A]) (second : Bytes) :
    (fitsInMemory numberSize reader.coreCount = true → ∃ earlier later whole : RunLog,
      reader.read? first = .ok earlier ∧ reader.read? second = .ok later ∧
      reader.read? (first ++ second) = .ok whole ∧
      reader.ReadsOn first second earlier later whole ∧
      ∀ coreCount, fitsInMemory numberSize coreCount = true →
        read? { reader with coreCount } (first ++ second) = .ok
          { whole with perCore := fitTo coreCount (coreCounts first ++ coreCounts second) }) ∧
    (fitsInMemory numberSize reader.coreCount = false →
      ∀ log, reader.read? log = .error .capacityOverflow) := by
  constructor
  · intro fits
    refine ⟨_, _, _, if_pos fits, if_pos fits, if_pos fits, readsOn_append reader ended second, ?_⟩
    intro coreCount fits'
    rw [read?, if_pos fits', read_of_coreCount, coreCounts_append ended]
  · intro vast log
    rw [read?, if_neg (by simp [vast])]

/-- A rate that is no number takes the place of the rate before it, while the total before it stays
as there is no later one. -/
theorem read?_append_garbled :
    let first := Utf8.encode
      "  -- th[0] : retired 5 instrs\n  -- total number of fetched instructions : 200 (IPC = 1.5)\n"
    let second := Utf8.encode "  -- th[1] : retired 7 instrs\n(IPC = nan)"
    (first = [] ∨ ∃ front, first = front ++ [0x0A]) ∧
      ∃ whole, LogReader.read? ⟨3, defaultFaultMarker⟩ (first ++ second) = .ok whole ∧
        whole.ipc = 0.0 ∧ whole.total = 200 ∧ whole.perCore = [5, 7, 0] := by
  intro first second
  have ended : first = [] ∨ ∃ front, first = front ++ [0x0A] :=
    .inr ⟨first.dropLast, by decide +kernel⟩
  obtain ⟨parts, -⟩ := read?_append ⟨3, defaultFaultMarker⟩ ended second
  obtain ⟨earlier, later, whole, readFirst, readSecond, readWhole, readsOn, -⟩ := parts (by decide)
  have total : earlier.total = 200 := by
    cases readFirst
    decide +kernel
  have ipc : later.ipc = 0.0 := by
    cases readSecond
    decide +kernel
  refine ⟨ended, whole, readWhole, ?_, ?_, ?_⟩
  · rw [readsOn.ipc, if_pos (by decide +kernel), ipc]
  · rw [readsOn.total, if_neg (by decide +kernel), total]
  · rw [readsOn.perCore]
    decide +kernel

/-- Two logs in one file are not read where a machine is said to have more cores than memory can
list. -/
theorem read?_append_vast :
    let first := Utf8.encode "(IPC = 1.5)\n"
    let second := Utf8.encode "(IPC = 2.5)\n"
    (first = [] ∨ ∃ front, first = front ++ [0x0A]) ∧
      ∀ whole : RunLog,
        LogReader.read? ⟨1152921504606846976, defaultFaultMarker⟩ (first ++ second) ≠
          .ok whole := by
  intro first second
  refine ⟨.inr ⟨first.dropLast, by decide +kernel⟩, ?_⟩
  intro whole
  rw [read?, if_neg (by decide)]
  exact nofun

end LogReader

end SpeedupStudy
