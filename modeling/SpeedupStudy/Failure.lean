/-
# Failures of a pass

Only what ends a whole pass is a failure. Whatever is wrong with a single log is recorded with the
results of the pass.
-/

import SpeedupStudy.Catalog.Basic
import SpeedupStudy.Config.Basic
import SpeedupStudy.Csv
import SpeedupStudy.FileSystem.Access

namespace SpeedupStudy

/-- What is wrong with a table as a list of records. -/
inductive RecordFault where
  | lengthMismatch (mismatch : Csv.LengthMismatch)
  /-- A field is no text. -/
  | notText
  /-- The table could be opened but not read. -/
  | unreadable (cause : IoError)
deriving DecidableEq, Repr

/-- What is wrong with a configuration. -/
inductive ConfigFault where
  | invalid (problem : ConfigProblem)
  | unknownScenario (name : String)
  | invalidThreadCount (text : String)
deriving DecidableEq, Repr

/-- What is wrong with the input of a pass. -/
inductive InputFault where
  | notADirectory (root : Path)
  | missingColumn (name : String)
  | noValueColumns
  | unknownMode (line : Nat) (field : String)
  | invalidValue (line : Nat) (field : String)
  /-- No log under a root measures a solo rate. -/
  | nothingMeasured (root : String)
deriving DecidableEq, Repr

/-- Why a pass ended. -/
inductive Failure where
  | io (cause : IoError)
  | records (fault : RecordFault)
  /-- A text is no TOML document, or not of the expected form. -/
  | toml
  /-- A value has no place in a TOML document. -/
  | tomlRange
  /-- A text is no JSON document, or not of the expected form. -/
  | json
  | config (fault : ConfigFault)
  | catalog (problem : CatalogProblem)
  | input (fault : InputFault)
  | aborted (event : Abort)
deriving DecidableEq

/-- The wording of a fault of a configuration. -/
def ConfigFault.message : ConfigFault → String
  | invalid problem => problem.message
  | unknownScenario name => "unsupported simulation type '" ++ name ++ "'"
  | invalidThreadCount text => "invalid thread count '" ++ text ++ "'"

/-- The wording of a fault of the input. -/
def InputFault.message : InputFault → String
  | notADirectory root => "result root " ++ root.display ++ " is not a directory"
  | missingColumn name => "result table has no '" ++ name ++ "' column"
  | noValueColumns => "result table has neither a 'sum' nor any 'core' columns"
  | unknownMode line field =>
    "line " ++ toString line ++ ": unknown run mode '" ++ field ++ "'"
  | invalidValue line field => "line " ++ toString line ++ ": invalid value '" ++ field ++ "'"
  | nothingMeasured root =>
    "no single-mode baseline logs with a reported IPC under " ++ root

/-- The wording of a fault of a list of records. It does not tell where the fault was found. -/
def RecordFault.message : RecordFault → String
  | lengthMismatch mismatch =>
    "found record with " ++ toString mismatch.got ++
      " fields, but the previous record has " ++ toString mismatch.expected ++ " fields"
  | notText => "a field is not valid UTF-8"
  | unreadable cause => cause.message

/-- The wording of a file error where it ends a pass or sets a log aside. -/
def IoError.report (e : IoError) : String :=
  "IO error: " ++ e.message

/-- The wording of a failure. Of a text that is no document it tells only this, and not where or
what was expected there. -/
def Failure.message : Failure → String
  | io cause => cause.report
  | records fault => "CSV error: " ++ fault.message
  | toml => "TOML parse error: not a document of the expected form"
  | tomlRange => "TOML serialization error: out of range value"
  | json => "JSON error: not a document of the expected form"
  | config fault => "Configuration error: " ++ fault.message
  | catalog problem => "Catalog error: " ++ problem.message
  | input fault => "Invalid input: " ++ fault.message
  | aborted event => event.message

/-- A program that may fail. -/
abbrev Attempt (m : Type → Type) := ExceptT Failure m

namespace Attempt

variable {m : Type → Type} [Monad m]

/-- Run an operation on files; its failure ends the pass. -/
def files {α : Type} (operation : m (Except IoError α)) : Attempt m α :=
  ExceptT.mk do
    match ← operation with
    | .error e => return .error (.io e)
    | .ok a => return .ok a

/-- Go on unless an event ends the program. -/
def unlessAborted {α : Type} : Except Abort α → Attempt m α
  | .error event => throw (.aborted event)
  | .ok a => pure a

/-- A value that must be there. -/
def require {α : Type} (failure : Failure) : Option α → Attempt m α
  | none => throw failure
  | some a => pure a

/-- End the pass if there is a problem. -/
def refuse {α : Type} (failure : α → Failure) : Option α → Attempt m Unit
  | none => pure ()
  | some a => throw (failure a)

end Attempt

end SpeedupStudy
