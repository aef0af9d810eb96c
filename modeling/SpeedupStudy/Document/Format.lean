/-
# Formats of documents

The formats of documents share their values but not all their rules on what stands for a
structure. A reader of structures is given the rules of the format that a document is written in.
-/

import SpeedupStudy.Document.Value

namespace SpeedupStudy

/-- The rules on structures in which formats differ. -/
structure DocumentFormat where
  /-- Whether a value is the nothing that may stand beside the name of a choice. -/
  isEmptyChoice : Value → Bool
  /-- Whether a list may go on after the last field of a structure. What follows is passed over. -/
  allowsSpareItems : Bool

end SpeedupStudy
