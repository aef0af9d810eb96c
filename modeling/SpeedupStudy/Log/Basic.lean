/-
# Simulator logs

A log is read once, line by line. Core lines add up in order, while of the other kinds the last
line counts, even if its number is malformed. At the end the counts are cut or filled with zeros
to the number of cores of the machine. A fault marker anywhere in a line flags the
run.
-/

import SpeedupStudy.Capacity
import SpeedupStudy.FileSystem.Access
import SpeedupStudy.Log.Line

namespace SpeedupStudy

/-- What a log tells about its run. -/
structure RunLog where
  /-- The instructions of each core of the machine. -/
  perCore : List UInt64
  /-- The instructions that all cores fetched. -/
  total : UInt64
  /-- The instructions per cycle of the machine. -/
  ipc : Float
  /-- Whether the fault marker occurs. -/
  fault : Bool
  /-- The number of core lines, which may differ from the number of cores. -/
  coreLines : Nat
deriving DecidableEq

namespace RunLog

/-- Whether the run reported throughput. -/
def completed (log : RunLog) : Bool :=
  0.0 < log.ipc && 0 < log.total

/-- The cycles of a run that reported throughput. -/
def cycles? (log : RunLog) : Option Float :=
  if log.completed then some (log.total.toFloat / log.ipc) else none

end RunLog

/-- What is known after some lines of a log. The counts of core lines are kept latest first. -/
structure LogScan where
  counts : List UInt64 := []
  total : UInt64 := 0
  ipc : Float := 0.0
  fault : Bool := false
deriving DecidableEq

namespace LogScan

/-- A scan after one more line. -/
def next (marker : String) (scan : LogScan) (line : List Char) : LogScan where
  counts :=
    if LogLine.hasMarker LogLine.coreMarker line then LogLine.coreInstructions line :: scan.counts
    else scan.counts
  total :=
    if LogLine.hasMarker LogLine.totalMarker line then LogLine.totalInstructions line
    else scan.total
  ipc := if LogLine.hasMarker LogLine.ipcMarker line then LogLine.ipc line else scan.ipc
  fault := scan.fault || (marker != "" && LogLine.hasMarker marker line)

/-- The lines of a log, each with the line feed that ends it. -/
def lines (log : Bytes) : List (List Char) :=
  (Text.cutAfter (· == 0x0A) log).map Utf8.decodeLossy

/-- The scan of a whole log. -/
def ofBytes (marker : String) (log : Bytes) : LogScan :=
  (lines log).foldl (next marker) {}

end LogScan

/-- Cut a list to a length, or fill it up with zeros. -/
def fitTo (length : Nat) (counts : List UInt64) : List UInt64 :=
  counts.take length ++ List.replicate (length - counts.length) 0

@[simp]
theorem length_fitTo (length : Nat) (counts : List UInt64) :
    (fitTo length counts).length = length := by
  simp only [fitTo, List.length_append, List.length_take, List.length_replicate]
  omega

/-- The marker that instrumented simulators leave after a fault. -/
def defaultFaultMarker : String := "C: Tool (or Pin) caused signal 11"

/-- How logs are read: the number of cores and the fault marker. The empty marker never
occurs. -/
structure LogReader where
  coreCount : Nat
  faultMarker : String := defaultFaultMarker

namespace LogReader

/-- Read a log. -/
def read (reader : LogReader) (log : Bytes) : RunLog :=
  let scan := LogScan.ofBytes reader.faultMarker log
  ⟨fitTo reader.coreCount scan.counts.reverse, scan.total, scan.ipc, scan.fault,
    scan.counts.length⟩

/-- Read a log unless the machine has more cores than memory can list. -/
def read? (reader : LogReader) (log : Bytes) : Except Abort RunLog :=
  if fitsInMemory numberSize reader.coreCount then .ok (reader.read log)
  else .error .capacityOverflow

/-- Read a log from what came of reading its file. A directory opens like a file, so memory is set
aside before the reading fails; otherwise the failure comes first. -/
def readContents? (reader : LogReader) : Except IoError Bytes → Except Abort (Except IoError RunLog)
  | .ok log => (reader.read? log).map .ok
  | .error e =>
    if e = .isADirectory && ! fitsInMemory numberSize reader.coreCount then
      .error .capacityOverflow
    else .ok (.error e)

end LogReader

end SpeedupStudy
