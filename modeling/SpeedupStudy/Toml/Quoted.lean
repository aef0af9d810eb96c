/-
# Quoted text in TOML

TOML has four ways to quote a text: between double quotes with escapes, between single quotes as
it stands, and both again between triple quotes, where line feeds stand for themselves. A text is
written in the first way in which it needs no escape but that of the tab, in the order plain,
literal, block, literal block, and otherwise with escapes. The readers accept every form of the
format, whether or not the writer would choose it.
-/

import SpeedupStudy.Text.Hexadecimal
import SpeedupStudy.Text.Pieces

namespace SpeedupStudy

namespace Toml

/-- The characters that only escapes and line ends can put into a text. -/
def isControl (c : Char) : Bool :=
  c.toNat < 0x20 || c.toNat == 0x7F

/-- A control character that not even a block can hold as it stands. -/
def needsEscape (c : Char) : Bool :=
  isControl c && c != '\t' && c != '\n'

/-- A way to quote a text. -/
inductive Quotation where
  /-- Between double quotes, with escapes. -/
  | basic
  /-- Between single quotes, as it stands. -/
  | literal
  /-- Between triple double quotes, with escapes except for line feeds. -/
  | block
  /-- Between triple single quotes, as it stands. -/
  | literalBlock
deriving DecidableEq, Repr

/-- Whether three of one quote follow each other in a text. -/
def hasTriple (quote : Char) (s : List Char) : Bool :=
  Text.occursIn [quote, quote, quote] s

/-- The quotation of a value. -/
def valueQuotation (s : List Char) : Quotation :=
  let clean := ! s.any needsEscape
  let oneLine := ! s.contains '\n'
  if clean && oneLine && ! s.contains '\\' && ! s.contains '"' then .basic
  else if clean && oneLine && ! s.contains '\'' then .literal
  else if clean && ! s.contains '\\' && ! hasTriple '"' s then .block
  else if clean && ! hasTriple '\'' s then .literalBlock
  else if oneLine then .basic
  else .block

/-- The quotation of a name. Names are never written as blocks, and they are literal only where
that spares an escape. -/
def nameQuotation (s : List Char) : Quotation :=
  let clean := ! s.any needsEscape && ! s.contains '\n'
  if clean && (s.contains '\\' || s.contains '"') && ! s.contains '\'' then .literal
  else .basic

/-- The last digit of a number in base sixteen, in upper case. -/
def hexDigit (n : Nat) : Char :=
  (Text.hexDigit n).toUpper

/-- A character between double quotes. -/
def escape (c : Char) : List Char :=
  if c = '"' then ['\\', '"']
  else if c = '\\' then ['\\', '\\']
  else if c = '\n' then ['\\', 'n']
  else if c = '\r' then ['\\', 'r']
  else if c = '\t' then ['\\', 't']
  else if c = Char.ofNat 8 then ['\\', 'b']
  else if c = Char.ofNat 12 then ['\\', 'f']
  else if isControl c then ['\\', 'u', '0', '0', hexDigit (c.toNat / 16), hexDigit c.toNat]
  else [c]

/-- A text between triple double quotes, after a run of quotes that were not escaped. Every third
quote in a row is escaped, so no three of them close the block. -/
def escapeBlock : Nat → List Char → List Char
  | _, [] => []
  | quotes, c :: rest =>
    if c = '"' then
      if quotes = 2 then '\\' :: '"' :: escapeBlock 0 rest
      else '"' :: escapeBlock (quotes + 1) rest
    else if c = '\n' then '\n' :: escapeBlock 0 rest
    else escape c ++ escapeBlock 0 rest

/-- The line feed after the opening quotes of a block that has more than one line. A reader drops
it. -/
def blockStart (s : List Char) : List Char :=
  if s.contains '\n' then ['\n'] else []

/-- A text in a quotation. -/
def quote (s : List Char) : Quotation → List Char
  | .basic => '"' :: (s.flatMap escape ++ ['"'])
  | .literal => '\'' :: (s ++ ['\''])
  | .block => ['"', '"', '"'] ++ blockStart s ++ escapeBlock 0 s ++ ['"', '"', '"']
  | .literalBlock => ['\'', '\'', '\''] ++ blockStart s ++ s ++ ['\'', '\'', '\'']

/-- The character with a number in base sixteen, if there is one. -/
def unicode? (digits : List Char) : Option Char :=
  (Text.hexNumber? digits).bind fun n => if n.isValidChar then some (Char.ofNat n) else none

/-- The character that a letter after a backslash stands for. -/
def escaped? (c : Char) : Option Char :=
  if c = '"' || c = '\\' then some c
  else if c = 'b' then some (Char.ofNat 8)
  else if c = 'f' then some (Char.ofNat 12)
  else if c = 'n' then some '\n'
  else if c = 'r' then some '\r'
  else if c = 't' then some '\t'
  else none

/-- Put a character in front of a text that was read. -/
def prepend (c : Char) (read : List Char × List Char) : List Char × List Char :=
  (c :: read.1, read.2)

/-- A text between double quotes after the opening quote, and what follows the closing one. -/
def readBasic : List Char → Option (List Char × List Char)
  | '"' :: rest => some ([], rest)
  | '\\' :: 'u' :: a :: b :: c :: d :: rest =>
    (unicode? [a, b, c, d]).bind fun char => (readBasic rest).map (prepend char)
  | '\\' :: 'U' :: a :: b :: c :: d :: e :: f :: g :: h :: rest =>
    (unicode? [a, b, c, d, e, f, g, h]).bind fun char => (readBasic rest).map (prepend char)
  | '\\' :: c :: rest => (escaped? c).bind fun char => (readBasic rest).map (prepend char)
  | c :: rest =>
    if c = '\\' || (isControl c && c != '\t') then none else (readBasic rest).map (prepend c)
  | [] => none

/-- A text between single quotes after the opening quote, and what follows the closing one. -/
def readLiteral : List Char → Option (List Char × List Char)
  | '\'' :: rest => some ([], rest)
  | c :: rest => if isControl c && c != '\t' then none else (readLiteral rest).map (prepend c)
  | [] => none

/-- Drop one line end. -/
def dropLineEnd : List Char → List Char
  | '\n' :: rest => rest
  | '\r' :: '\n' :: rest => rest
  | s => s

/-- Whether a space or a tab. -/
def isSpace (c : Char) : Bool :=
  c = ' ' || c = '\t'

/-- Drop spaces and tabs. -/
def skipSpace (s : List Char) : List Char :=
  s.dropWhile isSpace

/-- Whether a line ends after spaces and tabs. -/
def lineEnds (s : List Char) : Bool :=
  match skipSpace s with
  | '\n' :: _ => true
  | '\r' :: '\n' :: _ => true
  | _ => false

/-- The end of a block: a run of three to five quotes, of which the last three close it. The
argument is what follows the first three. -/
def closeBlock (quote : Char) : List Char → List Char × List Char
  | a :: b :: rest =>
    if a = quote then (if b = quote then ([a, b], rest) else ([a], b :: rest))
    else ([], a :: b :: rest)
  | [a] => if a = quote then ([a], []) else ([], [a])
  | [] => ([], [])

/-- A text between triple double quotes after the opening quotes and the line end that may follow
them, and what follows the closing quotes. A backslash at the end of a line takes the line end and
all space and line ends after it away; `trimming` says that one is at work. -/
def readBlock (trimming : Bool) : List Char → Option (List Char × List Char)
  | [] => none
  | ' ' :: rest =>
    if trimming then readBlock true rest else (readBlock false rest).map (prepend ' ')
  | '\t' :: rest =>
    if trimming then readBlock true rest else (readBlock false rest).map (prepend '\t')
  | '\n' :: rest =>
    if trimming then readBlock true rest else (readBlock false rest).map (prepend '\n')
  | '\r' :: '\n' :: rest =>
    if trimming then readBlock true rest else (readBlock false rest).map (prepend '\n')
  | '"' :: '"' :: '"' :: rest => some (closeBlock '"' rest)
  | '\\' :: 'u' :: a :: b :: c :: d :: rest =>
    (unicode? [a, b, c, d]).bind fun char => (readBlock false rest).map (prepend char)
  | '\\' :: 'U' :: a :: b :: c :: d :: e :: f :: g :: h :: rest =>
    (unicode? [a, b, c, d, e, f, g, h]).bind fun char =>
      (readBlock false rest).map (prepend char)
  | '\\' :: c :: rest =>
    if lineEnds (c :: rest) then readBlock true (c :: rest)
    else (escaped? c).bind fun char => (readBlock false rest).map (prepend char)
  | c :: rest =>
    if c = '\\' || isControl c then none else (readBlock false rest).map (prepend c)

/-- A text between triple single quotes after the opening quotes and the line end that may follow
them, and what follows the closing quotes. -/
def readLiteralBlock : List Char → Option (List Char × List Char)
  | [] => none
  | '\r' :: '\n' :: rest => (readLiteralBlock rest).map (prepend '\n')
  | '\'' :: '\'' :: '\'' :: rest => some (closeBlock '\'' rest)
  | c :: rest => if needsEscape c then none else (readLiteralBlock rest).map (prepend c)

/-- A quoted text without line ends, such as names may be, and what follows it. -/
def readLineQuote : List Char → Option (List Char × List Char)
  | '"' :: rest => readBasic rest
  | '\'' :: rest => readLiteral rest
  | _ => none

/-- A quoted text in any form, and what follows it. -/
def readQuote : List Char → Option (List Char × List Char)
  | '"' :: '"' :: '"' :: rest => readBlock false (dropLineEnd rest)
  | '\'' :: '\'' :: '\'' :: rest => readLiteralBlock (dropLineEnd rest)
  | s => readLineQuote s

end Toml

end SpeedupStudy
