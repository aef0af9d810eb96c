/-
# Names of log files

Every log is named after its run:

    {type}.{method}.{config}.{mode}.{workload}.out

where the method and the workload may contain dots. The first mode word that is neither the
first nor the last token is the anchor: the token before it is the configuration, those before
that are the type and the method, and everything from it on is the run base. The short form
`baseline.{mode}.{workload}.out` names a baseline run of a benign machine.
-/

import SpeedupStudy.Run.Basic
import SpeedupStudy.Path
import SpeedupStudy.Text.Pieces

namespace SpeedupStudy

/-- Why a file name names no run. -/
inductive NameError where
  | notAnOutputFile
  | emptyToken
  | missingModeAnchor
  | tooFewTokens
  | unknownScenario (token : String)
deriving DecidableEq, Repr

/-- The wording of a name error. -/
def NameError.message : NameError → String
  | notAnOutputFile => "file name does not end in .out"
  | emptyToken => "file name contains an empty token"
  | missingModeAnchor => "no mode token (single/rate/mix) followed by a workload"
  | tooFewTokens => "expected type.method.config before the mode token"
  | unknownScenario token => "unknown simulation type '" ++ token ++ "'"

/-- The extension of log files, without its dot. -/
def logExtension : String := "out"

namespace Run

/-- A name without a final dot and log extension. -/
def stem? (name : List Char) : Option (List Char) :=
  let ending := '.' :: logExtension.toList
  if ending.isSuffixOf name then some (name.take (name.length - ending.length)) else none

/-- The mode that a token names. -/
def modeOfToken? (token : List Char) : Option Mode :=
  Mode.ofName? (String.ofList token)

/-- The tokens cut before the first mode word that has a token after it, with that mode. -/
def cutAtMode? : List (List Char) → Option (List (List Char) × Mode × List (List Char))
  | [] => none
  | [_] => none
  | token :: rest =>
    match modeOfToken? token with
    | some mode => some ([], mode, token :: rest)
    | none => (cutAtMode? rest).map fun (before, mode, after) => (token :: before, mode, after)

/-- The tokens joined by dots. -/
def dotted (tokens : List (List Char)) : String :=
  String.ofList (Text.join '.' tokens)

/-- The run that a list of tokens names. The first token is never the anchor. -/
def ofTokens : List (List Char) → Except NameError Run
  | [] => .error .missingModeAnchor
  | first :: rest =>
    match cutAtMode? rest with
    | none => .error .missingModeAnchor
    | some ([], mode, base) =>
      if String.ofList first = baselineMethod then
        .ok ⟨none, baselineMethod, baselineConfig, mode, dotted base⟩
      else .error .tooFewTokens
    | some ([_], _, _) => .error .tooFewTokens
    | some (before, mode, base) =>
      match Scenario.ofName? (String.ofList first) with
      | none => .error (.unknownScenario (String.ofList first))
      | some t =>
        .ok ⟨some t, dotted before.dropLast, dotted (before.drop (before.length - 1)), mode,
          dotted base⟩

/-- The run that a file name names. -/
def ofFileName (name : String) : Except NameError Run :=
  match stem? name.toList with
  | none => .error .notAnOutputFile
  | some stem =>
    let tokens := Text.split '.' stem
    if tokens.any List.isEmpty then .error .emptyToken else ofTokens tokens

/-- The run that the last component of a path names. A name that is no UTF-8 names none. -/
def ofPath (path : Path) : Except NameError Run :=
  match path.fileName?.bind Utf8.decode? with
  | none => .error .notAnOutputFile
  | some name => ofFileName name

/-- The name of the log of a run. -/
def fileName (run : Run) : String :=
  let ending := "." ++ logExtension
  match run.scenario with
  | some _ => run.display ++ ending
  | none => baselineMethod ++ "." ++ run.runBase ++ ending

end Run

end SpeedupStudy
