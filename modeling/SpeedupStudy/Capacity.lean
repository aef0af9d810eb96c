/-
# Limits of the machine

A list takes the same number of bytes for each of its items, and one block of memory holds at most
`2 ^ 63 - 1` bytes. A pass that asks for more ends at once, before anything is computed.
-/

namespace SpeedupStudy

/-- The bytes that a list takes for a number. -/
def numberSize : Nat := 8

/-- The bytes that a list takes for a text, whose characters are kept elsewhere. -/
def textSize : Nat := 24

/-- Whether a block of memory can list this many items of a size. -/
def fitsInMemory (size count : Nat) : Bool :=
  size * count < Nat.pow 2 63

/-- An event that ends a program at once. -/
inductive Abort where
  /-- A longer list was asked for than a block of memory holds. -/
  | capacityOverflow
  /-- A pass was told to run on no thread. -/
  | zeroThreads
deriving DecidableEq, Repr

/-- The wording of an abort. -/
def Abort.message : Abort → String
  | capacityOverflow => "capacity overflow"
  | zeroThreads => "Thread count must be > 0"

end SpeedupStudy
