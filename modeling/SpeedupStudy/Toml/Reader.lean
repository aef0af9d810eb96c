/-
# Reading TOML

The reader takes one line after the other: a pair of a key and a value, the header of a section,
or nothing but space and a comment. Lists may go over several lines. Values nest at most 79 deep,
and a key has at most 79 names.
-/

import SpeedupStudy.Document.Format
import SpeedupStudy.Toml.Assembly
import SpeedupStudy.Toml.Scalar
import SpeedupStudy.Toml.Writer

namespace SpeedupStudy

namespace Toml

/-- The number of lists and tables that may lie within one another, and of names in a key. -/
def maxDepth : Nat := 79

/-- Whether a comment may hold a character. -/
def isCommentChar (c : Char) : Bool :=
  ! isControl c || c = '\t'

/-- What follows the end of a line, before which there may be space and a comment. The end of the
text ends a line as well. -/
def finishLine? (s : List Char) : Option (List Char) :=
  let rest := match skipSpace s with
    | '#' :: rest => rest.dropWhile isCommentChar
    | rest => rest
  match rest with
  | [] => some []
  | '\n' :: rest => some rest
  | '\r' :: '\n' :: rest => some rest
  | _ => none

/-- What follows space, line ends and comments between the items of a list. -/
def skipFiller (inComment : Bool) : List Char → List Char
  | [] => []
  | c :: rest =>
    if inComment && isCommentChar c then skipFiller true rest
    else if isSpace c || c = '\n' || (c = '\r' && rest.head? = some '\n') then
      skipFiller false rest
    else if c = '#' then skipFiller true rest
    else c :: rest

/-- One name of a key, in quotes or bare. -/
def readName (s : List Char) : Option (String × List Char) :=
  match readLineQuote s with
  | some (name, rest) => some (String.ofList name, rest)
  | none =>
    let name := s.takeWhile isBare
    if name.isEmpty then none else some (String.ofList name, s.dropWhile isBare)

/-- Some names with dots between them, at most so many, and space around each. -/
def readNames : Nat → List Char → Option (List String × List Char)
  | 0, _ => none
  | limit + 1, s => do
    let (name, rest) ← readName (skipSpace s)
    match skipSpace rest with
    | '.' :: rest => (readNames limit rest).map fun (names, rest) => (name :: names, rest)
    | rest => some ([name], rest)

/-- A key and what follows it and the space after it. -/
def readKey (s : List Char) : Option (Key × List Char) :=
  (readNames maxDepth s).map fun (names, rest) => (⟨names.dropLast, names.getLastD ""⟩, rest)

/-- A value that is neither a list nor a table. -/
def readScalar : List Char → Option (Value × List Char)
  | 't' :: 'r' :: 'u' :: 'e' :: rest => some (.bool true, rest)
  | 'f' :: 'a' :: 'l' :: 's' :: 'e' :: rest => some (.bool false, rest)
  | [] => none
  | c :: rest =>
    if c = '"' || c = '\'' then
      (readQuote (c :: rest)).map fun (s, rest) => (.text (String.ofList s), rest)
    else if c = '+' || c = '-' || c.isDigit then (readDate (c :: rest)).or (readNumber (c :: rest))
    else readSpecial false (c :: rest)

mutual

/-- A value and what follows it. The depth is the number of lists and tables that may still lie
within one another. Every call takes at least one character, so the length of the text bounds the
number of steps. -/
def readValue : Nat → Nat → List Char → Option (Value × List Char)
  | 0, _, _ => none
  | steps + 1, depth, '[' :: rest =>
    if depth = 0 then none
    else (readItems steps (depth - 1) rest).map fun (items, rest) => (.list items, rest)
  | steps + 1, depth, '\x7b' :: rest =>
    if depth = 0 then none
    else
      match skipSpace rest with
      | '\x7d' :: rest => some (.table [], rest)
      | _ =>
        (readPairs steps (depth - 1) rest).bind fun (pairs, rest) =>
          (tableOfPairs? pairs).map (·, rest)
  | _ + 1, _, s => readScalar s

/-- The items of a list and what follows its closing bracket. A comma may follow the last item. -/
def readItems : Nat → Nat → List Char → Option (List Value × List Char)
  | 0, _, _ => none
  | steps + 1, depth, s =>
    match skipFiller false s with
    | ']' :: rest => some ([], rest)
    | rest => do
      let (item, rest) ← readValue steps depth rest
      match skipFiller false rest with
      | ',' :: rest => (readItems steps depth rest).map fun (items, rest) => (item :: items, rest)
      | ']' :: rest => some ([item], rest)
      | _ => none

/-- The pairs of a table that has some, and what follows its closing brace. -/
def readPairs : Nat → Nat → List Char → Option (List Pair × List Char)
  | 0, _, _ => none
  | steps + 1, depth, s => do
    let (key, rest) ← readKey s
    let (value, rest) ← readValue steps depth (skipSpace (← skip? '=' rest))
    match skipSpace rest with
    | ',' :: rest =>
      (readPairs steps depth rest).map fun (pairs, rest) => (⟨key, value⟩ :: pairs, rest)
    | '\x7d' :: rest => some ([⟨key, value⟩], rest)
    | _ => none

end

/-- A key and its value, and what follows. -/
def readPair (s : List Char) : Option (Pair × List Char) := do
  let (key, rest) ← readKey s
  let rest ← skip? '=' rest
  let (value, rest) ← readValue (rest.length + 1) maxDepth (skipSpace rest)
  some (⟨key, value⟩, rest)

/-- What a line says. -/
inductive Line where
  | blank
  | pair (pair : Pair)
  | header (header : Header)

/-- A line without its end, and what follows. -/
def readLine (s : List Char) : Option (Line × List Char) :=
  match skipSpace s with
  | [] => some (.blank, [])
  | '[' :: '[' :: rest => do
    let (key, rest) ← readKey rest
    let rest ← skip? ']' (← skip? ']' rest)
    some (.header (.item key), rest)
  | '[' :: rest => do
    let (key, rest) ← readKey rest
    some (.header (.table key), ← skip? ']' rest)
  | c :: rest =>
    if c = '#' || c = '\n' || c = '\r' then some (.blank, c :: rest)
    else (readPair (c :: rest)).map fun (pair, rest) => (.pair pair, rest)

/-- Put a line in front of an outline. Pairs that come before a header belong to it no more. -/
def Outline.addLine (outline : Outline) : Line → Outline
  | .blank => outline
  | .pair pair => { outline with pairs := pair :: outline.pairs }
  | .header header => ⟨[], ⟨header, outline.pairs⟩ :: outline.sections⟩

/-- The lines of a text. Every line takes at least one character, so the length of the text bounds
their number. -/
def readLines : Nat → List Char → Option Outline
  | _, [] => some {}
  | 0, _ => none
  | steps + 1, s => do
    let (line, rest) ← readLine s
    let rest ← finishLine? rest
    (readLines steps rest).map (·.addLine line)

/-- Whether a value is a table or a list without anything in it. -/
def isEmpty : Value → Bool
  | .table [] => true
  | .list [] => true
  | _ => false

/-- What stands for a structure: an empty table or list may follow the name of a choice, and a list
may be longer than its structure. -/
def format : DocumentFormat where
  isEmptyChoice := isEmpty
  allowsSpareItems := true

/-- The document that a text holds. A byte order mark before it is dropped. -/
def parse? (text : String) : Option Value :=
  let s := match text.toList with
    | c :: rest => if c = Char.ofNat 0xFEFF then rest else c :: rest
    | [] => []
  (readLines s.length s).bind Outline.toValue?

end Toml

end SpeedupStudy
