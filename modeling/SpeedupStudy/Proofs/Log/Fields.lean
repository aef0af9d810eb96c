/-
# What a log tells

The scan of a log takes one line after another. What it holds at the end can be said of the lines as
a whole: the counts are those of all core lines in order, the total and the rate are those of the
last line that carries the marker, and there is a fault if any line carries a marker that is not
empty. The rate is finite, however the lines are garbled.
-/

import SpeedupStudy.Log.Basic

namespace SpeedupStudy

namespace LogScan

/-- What the last of the lines with a marker tells, or a default where there is none. -/
def lastOf {α : Type} (marker : String) (value : List Char → α) (default : α)
    (lines : List (List Char)) : α :=
  ((lines.filter (LogLine.hasMarker marker)).getLast?.map value).getD default

/-- The counts of the core lines of a log in their order. -/
def coreCounts (log : Bytes) : List UInt64 :=
  ((lines log).filter (LogLine.hasMarker LogLine.coreMarker)).map LogLine.coreInstructions

/-- The fetched instructions on the last total line of a log. -/
def lastTotal (log : Bytes) : UInt64 :=
  lastOf LogLine.totalMarker LogLine.totalInstructions 0 (lines log)

/-- The instructions per cycle on the last throughput line of a log. -/
def lastIpc (log : Bytes) : Float :=
  lastOf LogLine.ipcMarker LogLine.ipc 0.0 (lines log)

/-- Whether a line of a log carries a fault marker. The empty marker never occurs. -/
def hasFault (marker : String) (log : Bytes) : Bool :=
  marker != "" && (lines log).any (LogLine.hasMarker marker)

/-- A line counts until a later one with the marker comes. -/
theorem lastOf_cons {α : Type} (marker : String) (value : List Char → α) (default : α)
    (line : List Char) (rest : List (List Char)) :
    lastOf marker value default (line :: rest) =
      lastOf marker value (if LogLine.hasMarker marker line then value line else default) rest := by
  unfold lastOf
  by_cases marked : LogLine.hasMarker marker line = true
  · rw [List.filter_cons_of_pos marked, List.getLast?_cons, if_pos marked]
    cases (rest.filter (LogLine.hasMarker marker)).getLast? <;> rfl
  · rw [List.filter_cons_of_neg marked, if_neg marked]

/-- What a scan holds after some more lines. -/
theorem foldl_next (marker : String) (lines : List (List Char)) (scan : LogScan) :
    lines.foldl (next marker) scan =
      { counts := ((lines.filter (LogLine.hasMarker LogLine.coreMarker)).map
          LogLine.coreInstructions).reverse ++ scan.counts
        total := lastOf LogLine.totalMarker LogLine.totalInstructions scan.total lines
        ipc := lastOf LogLine.ipcMarker LogLine.ipc scan.ipc lines
        fault := scan.fault || (marker != "" && lines.any (LogLine.hasMarker marker)) } := by
  induction lines generalizing scan with
  | nil =>
      obtain ⟨counts, total, ipc, fault⟩ := scan
      simp [lastOf]
  | cons line rest ih =>
      rw [List.foldl_cons, ih, lastOf_cons, lastOf_cons]
      congr 1
      · by_cases core : LogLine.hasMarker LogLine.coreMarker line = true <;>
          simp [next, core]
      · rw [next, List.any_cons, Bool.and_or_distrib_left, Bool.or_assoc]

/-- What the scan of a whole log holds. -/
theorem ofBytes_eq (marker : String) (log : Bytes) :
    ofBytes marker log =
      ⟨(coreCounts log).reverse, lastTotal log, lastIpc log, hasFault marker log⟩ := by
  rw [ofBytes, foldl_next, List.append_nil]
  rfl

end LogScan

/-- A list that is cut or filled up has the counts of the list, and zeros after them. -/
theorem getElem?_fitTo (length : Nat) (counts : List UInt64) (place : Nat) :
    (fitTo length counts)[place]? =
      if place < length then some (counts[place]?.getD 0) else none := by
  rw [fitTo, List.getElem?_append, List.length_take, List.getElem?_replicate]
  by_cases inside : place < length
  · rw [if_pos inside]
    by_cases listed : place < counts.length
    · rw [if_pos (by omega), List.getElem?_take_of_lt inside, List.getElem?_eq_getElem listed]
      rfl
    · rw [if_neg (by omega), if_pos (by omega), List.getElem?_eq_none (by omega)]
      rfl
  · rw [if_neg inside, if_neg (by omega), if_neg (by omega)]

/-- The rate on a line is finite, however the line is garbled. -/
theorem LogLine.isFinite_ipc (line : List Char) : (LogLine.ipc line).isFinite = true := by
  rw [LogLine.ipc]
  generalize ((Text.after? ipcMarker.toList line).map fun rest =>
    Text.trim (rest.takeWhile (· != ')'))).bind readFloat? = number
  cases kept : number.filter fun x => x.isFinite && 0.0 ≤ x with
  | none => exact (by decide +kernel : (0.0 : Float).isFinite = true)
  | some x =>
      rw [Option.filter_eq_some_iff, Bool.and_eq_true] at kept
      exact kept.2.1

/-- The rate of a log is finite, whatever the log holds. -/
theorem LogScan.isFinite_lastIpc (log : Bytes) : (lastIpc log).isFinite = true := by
  rw [lastIpc, lastOf]
  cases ((lines log).filter (LogLine.hasMarker LogLine.ipcMarker)).getLast? with
  | none => exact (by decide +kernel : (0.0 : Float).isFinite = true)
  | some line => exact LogLine.isFinite_ipc line

namespace LogReader

/-- What a reader tells of a log. -/
theorem read_eq (reader : LogReader) (log : Bytes) :
    reader.read log =
      ⟨fitTo reader.coreCount (LogScan.coreCounts log), LogScan.lastTotal log, LogScan.lastIpc log,
        LogScan.hasFault reader.faultMarker log, (LogScan.coreCounts log).length⟩ := by
  simp only [read, LogScan.ofBytes_eq, List.reverse_reverse, List.length_reverse]

end LogReader

end SpeedupStudy
