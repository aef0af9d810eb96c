/-
# Writing JSON

Documents are written with one field or item to a line, indented by two spaces for each level.
Quotes, backslashes and control characters are escaped and all other characters stand for
themselves.
-/

import SpeedupStudy.Decimal.Shortest
import SpeedupStudy.Document.Value
import SpeedupStudy.Text.Hexadecimal

namespace SpeedupStudy

namespace Json

/-- A character inside quotes. -/
def escape (c : Char) : List Char :=
  if c = '"' then ['\\', '"']
  else if c = '\\' then ['\\', '\\']
  else if c = '\n' then ['\\', 'n']
  else if c = '\r' then ['\\', 'r']
  else if c = '\t' then ['\\', 't']
  else if c = Char.ofNat 8 then ['\\', 'b']
  else if c = Char.ofNat 12 then ['\\', 'f']
  else if c.toNat < 32 then
    ['\\', 'u', '0', '0', Text.hexDigit (c.toNat / 16), Text.hexDigit c.toNat]
  else [c]

/-- A text in quotes. -/
def quoted (s : String) : List Char :=
  '"' :: (s.toList.flatMap escape ++ ['"'])

/-- The start of a line at a level. -/
def newline (level : Nat) : List Char :=
  '\n' :: List.replicate (2 * level) ' '

mutual

/-- A value whose line is indented to a level. Values that the format lacks are null. -/
def write (level : Nat) : Value → List Char
  | .null => "null".toList
  | .bool b => (if b then "true" else "false").toList
  | .integer n => (toString n).toList
  | .real x => if x.isFinite then floatText x else "null".toList
  | .text s => quoted s
  | .date lexeme => quoted lexeme
  | .list [] => ['[', ']']
  | .list (item :: rest) =>
    '[' :: (newline (level + 1) ++ write (level + 1) item ++ writeItems (level + 1) rest ++
      newline level ++ [']'])
  | .table [] => ['\x7b', '\x7d']
  | .table ((name, value) :: rest) =>
    '\x7b' :: (newline (level + 1) ++ quoted name ++ ": ".toList ++ write (level + 1) value ++
      writeFields (level + 1) rest ++ newline level ++ ['\x7d'])
  | .unreadable => "null".toList

/-- The items of a list after the first one. -/
def writeItems (level : Nat) : List Value → List Char
  | [] => []
  | item :: rest => ',' :: (newline level ++ write level item ++ writeItems level rest)

/-- The fields of a table after the first one. -/
def writeFields (level : Nat) : List (String × Value) → List Char
  | [] => []
  | (name, value) :: rest =>
    ',' :: (newline level ++ quoted name ++ ": ".toList ++ write level value ++
      writeFields level rest)

end

/-- The text of a document. -/
def render (v : Value) : String :=
  String.ofList (write 0 v)

end Json

end SpeedupStudy
