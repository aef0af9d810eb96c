/-
# Comma-separated tables

A table is a list of records, and a record is a list of fields, each a string of bytes. A field is
quoted when it holds a comma, a quote or a line end, and then its quotes are doubled. The reader
takes any text: lines end with a line feed, a carriage return or both, empty lines are passed over,
and a quote that opens no field stands for itself. What the writer makes, the reader reads back.
-/

import SpeedupStudy.Text.Pieces
import SpeedupStudy.Text.Utf8

namespace SpeedupStudy

namespace Csv

/-- The byte between two fields. -/
def comma : UInt8 := 0x2C

/-- The byte around a quoted field. -/
def quote : UInt8 := 0x22

/-- The byte that ends a record. -/
def lineFeed : UInt8 := 0x0A

/-- The byte that ends a record, too. -/
def carriageReturn : UInt8 := 0x0D

/-- Whether a byte ends a record. -/
def endsRecord (b : UInt8) : Bool :=
  b == lineFeed || b == carriageReturn

/-- Whether a field must be quoted because of this byte. -/
def needsQuotes (b : UInt8) : Bool :=
  b == comma || b == quote || endsRecord b

/-- A field as it is written. -/
def fieldText (field : Bytes) : Bytes :=
  if field.any needsQuotes then
    quote :: ((field.flatMap fun b => if b == quote then [quote, quote] else [b]) ++ [quote])
  else field

/-- A record without its line end. A record with one empty field is quoted, so that its line is not
empty. -/
def recordText (record : List Bytes) : Bytes :=
  if record == [[]] then [quote, quote] else Text.join comma (record.map fieldText)

/-- A record that breaks off before its line end, where a quoted last field is not closed yet. -/
def openText (record : List Bytes) : Bytes :=
  let text := Text.join comma (record.map fieldText)
  if (record.getLastD []).any needsQuotes then text.dropLast else text

/-- A record that has not as many fields as the first one. -/
structure LengthMismatch where
  expected : Nat
  got : Nat
deriving DecidableEq, Repr

/-- The text of records of one length. It breaks off in the first record of another length. -/
def renderAll (length : Nat) : List (List Bytes) → Bytes × Option LengthMismatch
  | [] => ([], none)
  | record :: rest =>
    if record.length = length then
      let (text, mismatch) := renderAll length rest
      (recordText record ++ lineFeed :: text, mismatch)
    else (openText record, some ⟨length, record.length⟩)

/-- The text of a table, and the first record that does not have the length of the first one. -/
def render (records : List (List Bytes)) : Bytes × Option LengthMismatch :=
  renderAll (records.headD []).length records

/-- Where a reader stands. -/
inductive Position where
  /-- Before a record, or in an empty line. -/
  | recordStart
  | fieldStart
  | unquoted
  | quoted
  /-- After a quote in a quoted field, which may close it. -/
  | closed
deriving DecidableEq, Repr

/-- What a reader holds: the finished records, the finished fields of the current record and the
bytes of the current field, each latest first. -/
structure Scan where
  records : List (List Bytes) := []
  fields : List Bytes := []
  bytes : Bytes := []
  position : Position := .recordStart
deriving DecidableEq, Repr

namespace Scan

/-- Add a byte to the current field. -/
def push (s : Scan) (b : UInt8) (position : Position) : Scan :=
  { s with bytes := b :: s.bytes, position }

/-- Finish the current field. -/
def endField (s : Scan) : Scan :=
  { s with fields := s.bytes.reverse :: s.fields, bytes := [], position := .fieldStart }

/-- Finish the current field and its record. -/
def endRecord (s : Scan) : Scan :=
  ⟨(s.bytes.reverse :: s.fields).reverse :: s.records, [], [], .recordStart⟩

/-- A byte that is neither quoted nor an opening quote. -/
def nextPlain (s : Scan) (b : UInt8) : Scan :=
  if b == comma then s.endField
  else if endsRecord b then s.endRecord
  else s.push b .unquoted

/-- One byte. -/
def next (s : Scan) (b : UInt8) : Scan :=
  match s.position with
  | .recordStart =>
    if endsRecord b then s
    else if b == quote then { s with position := .quoted }
    else s.nextPlain b
  | .fieldStart => if b == quote then { s with position := .quoted } else s.nextPlain b
  | .unquoted => s.nextPlain b
  | .quoted => if b == quote then { s with position := .closed } else s.push b .quoted
  | .closed => if b == quote then s.push b .quoted else s.nextPlain b

/-- The records at the end of the text. -/
def finish (s : Scan) : List (List Bytes) :=
  match s.position with
  | .recordStart => s.records.reverse
  | _ => s.endRecord.records.reverse

end Scan

/-- The byte order mark that some programs put before a text. -/
def byteOrderMark : Bytes := [0xEF, 0xBB, 0xBF]

/-- The text without a byte order mark. -/
def dropMark (text : Bytes) : Bytes :=
  if byteOrderMark.isPrefixOf text then text.drop byteOrderMark.length else text

/-- The records of a text. -/
def parse (text : Bytes) : List (List Bytes) :=
  ((dropMark text).foldl Scan.next {}).finish

end Csv

end SpeedupStudy
