/-
# Lines of a simulator log

Three kinds of lines carry measurements. A core line has the instructions of one core as its
fifth word, a total line has all fetched instructions as its tenth piece between single spaces,
and a throughput line has the instructions per cycle between its marker and the next closing
parenthesis. Logs of crashed simulations are often cut short or garbled, so a missing or
malformed number reads as zero.
-/

import SpeedupStudy.Decimal.Numeral
import SpeedupStudy.Text.Blank

namespace SpeedupStudy

namespace LogLine

/-- What marks the line of one core. -/
def coreMarker : String := "-- th["

/-- What marks the line with the fetched instructions of all cores. -/
def totalMarker : String := "total number of fetched instructions"

/-- What marks the line with the instructions per cycle. -/
def ipcMarker : String := "IPC = "

/-- Whether a marker occurs in a line. -/
def hasMarker (marker : String) (line : List Char) : Bool :=
  Text.occursIn marker.toList line

/-- A count, or zero where there is none. -/
def countOrZero (token : Option (List Char)) : UInt64 :=
  UInt64.ofNat ((token.bind readCount?).getD 0)

/-- The instructions on a core line. -/
def coreInstructions (line : List Char) : UInt64 :=
  countOrZero (Text.words line)[4]?

/-- The fetched instructions on a total line. -/
def totalInstructions (line : List Char) : UInt64 :=
  countOrZero ((Text.split ' ' line)[9]?.map Text.trim)

/-- The instructions per cycle on a throughput line. Infinite, undefined and negative values
count as malformed. -/
def ipc (line : List Char) : Float :=
  let numeral := (Text.after? ipcMarker.toList line).map fun rest =>
    Text.trim (rest.takeWhile (· != ')'))
  ((numeral.bind readFloat?).filter fun x => x.isFinite && 0.0 ≤ x).getD 0.0

end LogLine

end SpeedupStudy
