/-
# The built-in catalog

The traces are the SimPoint traces of SPEC CPU2017 programs that the study uses. A mix is a list
of sixteen positions in the table of traces, one for each core.
-/

import SpeedupStudy.Catalog.Basic

namespace SpeedupStudy

namespace Catalog

/-- The traces of the study with their solo rates. -/
def builtinTraces : List (String × Float) :=
  [("500_old.6468", 0.803),
   ("505_old.3185", 0.93),
   ("505_old.3581", 0.81),
   ("505_old.5653", 1.027),
   ("505_old.6834", 0.834),
   ("507_old.6835", 1.221),
   ("510_old.17633", 1.394),
   ("511_old.7030", 1.007),
   ("519_old.228", 0.69),
   ("519_old.5059", 0.607),
   ("519_old.7103", 0.655),
   ("519_old.13461", 0.606),
   ("520_old.3162", 0.539),
   ("520_old.6293", 0.557),
   ("523_old.1214", 0.419),
   ("523_old.9188", 1.008),
   ("525_old.5092", 2.436),
   ("526_old.6508", 1.691),
   ("527_old.25724", 1.428),
   ("531_old.3142", 1.199),
   ("541_old.12100", 1.234),
   ("548_old.22002", 1.736),
   ("549_old.9406", 0.43),
   ("549_old.8717", 0.354),
   ("549_old.15239", 1.367),
   ("549_old.18663", 0.704),
   ("554_old.1975", 0.89),
   ("554_old.21190", 0.904)]

/-- The mixes of the study, as positions in the table of traces. -/
def builtinSlots : List (String × List Nat) :=
  [("high", [1, 5, 10, 23, 2, 11, 12, 22, 3, 8, 24, 26, 4, 9, 25, 27]),
   ("blend", [0, 12, 16, 20, 6, 13, 17, 21, 7, 14, 18, 25, 10, 15, 19, 27]),
   ("0", [19, 17, 22, 11, 18, 18, 23, 5, 24, 26, 10, 12, 20, 25, 11, 9]),
   ("1", [12, 22, 6, 24, 21, 27, 11, 3, 13, 26, 20, 12, 2, 16, 22, 21]),
   ("2", [11, 12, 12, 25, 23, 25, 9, 21, 0, 26, 11, 19, 3, 14, 7, 5]),
   ("3", [25, 27, 10, 21, 22, 19, 14, 19, 8, 25, 6, 17, 2, 20, 16, 19]),
   ("4", [18, 24, 1, 2, 13, 20, 19, 1, 21, 0, 20, 6, 6, 3, 9, 6]),
   ("5", [14, 23, 25, 18, 10, 0, 25, 19, 10, 13, 18, 25, 7, 17, 1, 24]),
   ("6", [17, 23, 20, 9, 27, 6, 19, 5, 16, 16, 16, 5, 24, 21, 1, 23]),
   ("7", [15, 22, 23, 18, 14, 0, 25, 16, 15, 17, 24, 20, 23, 11, 23, 17]),
   ("8", [25, 18, 20, 8, 8, 2, 22, 4, 1, 5, 10, 26, 2, 6, 14, 17]),
   ("9", [26, 8, 1, 17, 4, 13, 11, 19, 22, 1, 13, 9, 23, 4, 1, 20]),
   ("10", [14, 11, 12, 2, 6, 11, 21, 21, 20, 19, 8, 22, 6, 6, 4, 15]),
   ("11", [12, 19, 13, 17, 8, 5, 7, 22, 26, 10, 12, 19, 6, 25, 24, 19]),
   ("12", [13, 5, 22, 15, 19, 22, 20, 10, 1, 0, 17, 19, 6, 20, 13, 9]),
   ("13", [24, 17, 10, 24, 12, 27, 11, 7, 9, 14, 18, 12, 20, 12, 4, 19]),
   ("14", [26, 8, 24, 23, 7, 12, 26, 22, 2, 14, 22, 0, 10, 2, 26, 8]),
   ("15", [15, 16, 26, 19, 12, 4, 1, 27, 16, 18, 12, 6, 20, 14, 3, 21]),
   ("16", [7, 9, 1, 15, 25, 22, 6, 11, 17, 10, 8, 18, 3, 21, 27, 21]),
   ("17", [4, 16, 24, 18, 21, 20, 1, 20, 17, 15, 9, 0, 4, 4, 14, 2]),
   ("18", [27, 20, 23, 19, 15, 14, 23, 23, 0, 5, 25, 6, 5, 7, 24, 7]),
   ("19", [20, 1, 22, 20, 25, 14, 14, 22, 25, 12, 21, 9, 24, 10, 0, 22]),
   ("20", [13, 11, 25, 20, 3, 25, 5, 2, 22, 0, 9, 20, 21, 27, 6, 5]),
   ("21", [21, 6, 3, 2, 5, 17, 20, 12, 18, 19, 7, 1, 13, 7, 21, 25]),
   ("22", [13, 10, 27, 17, 14, 15, 23, 6, 2, 2, 2, 27, 20, 21, 4, 11]),
   ("23", [8, 18, 12, 0, 0, 25, 21, 7, 1, 17, 17, 3, 27, 20, 12, 8]),
   ("24", [16, 17, 9, 4, 22, 0, 27, 27, 13, 9, 15, 11, 1, 24, 21, 10]),
   ("25", [0, 24, 19, 1, 2, 24, 25, 1, 26, 24, 11, 25, 13, 19, 13, 12]),
   ("26", [15, 5, 0, 15, 21, 27, 5, 6, 2, 13, 6, 2, 17, 20, 16, 25]),
   ("27", [25, 5, 13, 7, 19, 26, 2, 7, 16, 5, 13, 0, 13, 16, 17, 24]),
   ("28", [9, 3, 22, 20, 10, 9, 1, 22, 15, 11, 26, 10, 0, 24, 11, 18]),
   ("29", [18, 10, 22, 6, 3, 17, 0, 22, 1, 12, 22, 16, 12, 1, 25, 12]),
   ("30", [0, 20, 1, 21, 19, 13, 23, 14, 2, 10, 19, 16, 19, 14, 17, 16]),
   ("31", [6, 2, 14, 18, 21, 27, 24, 11, 23, 11, 1, 4, 4, 3, 7, 25])]

/-- The mixes of the study with the names of their traces. -/
def builtinMixes : List (String × List String) :=
  builtinSlots.map fun (name, slots) =>
    (name, slots.filterMap fun slot => builtinTraces[slot]?.map (·.1))

/-- The catalog of the study. -/
def builtin : Catalog :=
  ⟨.ofList builtinTraces, .ofList builtinMixes⟩

end Catalog

end SpeedupStudy
