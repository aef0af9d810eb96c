/-
# Blank characters

The readers of logs and tables skip every character with the Unicode property `White_Space`,
not only the ASCII ones: a no-break space around a number is dropped, a zero-width space is
not. `trim` removes blanks at both ends and `words` are the longest runs without a blank.
-/

import SpeedupStudy.Text.Pieces

namespace SpeedupStudy.Text

/-- The 25 characters with the Unicode property `White_Space`. -/
def isBlank (c : Char) : Bool :=
  let code := c.toNat
  (9 ≤ code && code ≤ 13) || code == 0x20 || code == 0x85 || code == 0xA0 || code == 0x1680 ||
    (0x2000 ≤ code && code ≤ 0x200A) || code == 0x2028 || code == 0x2029 || code == 0x202F ||
    code == 0x205F || code == 0x3000

/-- Drop the blanks at the start. -/
def trimLeft (s : List Char) : List Char :=
  s.dropWhile isBlank

/-- Drop the blanks at the end. -/
def trimRight (s : List Char) : List Char :=
  (s.reverse.dropWhile isBlank).reverse

/-- Drop the blanks at both ends. -/
def trim (s : List Char) : List Char :=
  trimRight (trimLeft s)

/-- The longest runs of characters that are not blank, in order. -/
def words (s : List Char) : List (List Char) :=
  (splitWhen isBlank s).filter (! ·.isEmpty)

end SpeedupStudy.Text
