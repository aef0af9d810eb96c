/-
# The host of a pass

A pass notes how long it took, when it ended and on how many threads it ran. These come from the
machine it runs on and have no influence on its results. A disk has no clock, so on it a pass takes
no time.
-/

import SpeedupStudy.FileSystem.Disk

namespace SpeedupStudy

/-- What a pass asks the machine it runs on. -/
class Host (m : Type → Type) where
  /-- The time on a clock that never goes back, in milliseconds. -/
  milliseconds : m Nat
  /-- The date and the time of day. -/
  timestamp : m String
  /-- The number of threads of a pass that sets none. -/
  defaultThreads : m Nat

instance : Host DiskM where
  milliseconds := pure 0
  timestamp := pure ""
  defaultThreads := pure 0

/-- A program with a state of its own has the host of the program below it. -/
instance {σ : Type} {m : Type → Type} [Monad m] [Host m] : Host (StateT σ m) where
  milliseconds := StateT.lift Host.milliseconds
  timestamp := StateT.lift Host.timestamp
  defaultThreads := StateT.lift Host.defaultThreads

end SpeedupStudy
