/-
# Options of a command

The options of a command are names followed by values, in any order. A value does not start with
two dashes. Where a name occurs more than once its first occurrence counts, and names that a command
does not ask for are passed over.
-/

import SpeedupStudy.Failure
import SpeedupStudy.Terminal

namespace SpeedupStudy

/-- The arguments after the name of a command. -/
structure Arguments where
  args : List String
deriving DecidableEq, Repr

/-- What the arguments say about an option. -/
inductive OptionValue where
  | absent
  /-- The name is there but no value follows it. -/
  | missing
  | value (text : String)
deriving DecidableEq, Repr

/-- Whether an argument is the name of an option, so that it is no value. -/
def isOptionName (arg : String) : Bool :=
  "--".toList.isPrefixOf arg.toList

/-- What the arguments say about an option. -/
def Arguments.find (arguments : Arguments) (name : String) : OptionValue :=
  match arguments.args.dropWhile (· != name) with
  | [] => .absent
  | [_] => .missing
  | _ :: value :: _ => if isOptionName value then .missing else .value value

/-- Why a command ended early. -/
inductive Stop where
  | failed (failure : Failure)
  | valueMissing (name : String)
  | optionMissing (name : String)
  | pathMissing (command : String)
deriving DecidableEq

/-- What is printed to the error output when a command ends early. -/
def Stop.line : Stop → String
  | failed (.aborted event) => event.message
  | failed failure => "❌ " ++ failure.message
  | valueMissing name => "Error: " ++ name ++ " requires a value"
  | optionMissing name => "Error: missing required " ++ name
  | pathMissing command => "Error: " ++ command ++ " requires a path argument"

/-- The exit code of a command that ended early. -/
def Stop.exitCode : Stop → UInt8
  | failed (.aborted _) => 101
  | _ => 1

/-- A command. -/
abbrev Command (m : Type → Type) := ExceptT Stop m

namespace Command

variable {m : Type → Type} [Monad m]

/-- Run a part of a command that may fail. -/
def attempt {α : Type} (part : Attempt m α) : Command m α :=
  ExceptT.mk do
    match ← part.run with
    | .error failure => return .error (.failed failure)
    | .ok a => return .ok a

/-- End the command with a failure. -/
def fail {α : Type} (failure : Failure) : Command m α :=
  throw (.failed failure)

/-- Print a line. -/
def print [Console m] (line : String) : Command m Unit :=
  ExceptT.lift (Console.out line)

/-- The value of an option, if the option is there. -/
def option (arguments : Arguments) (name : String) : Command m (Option String) :=
  match arguments.find name with
  | .absent => return none
  | .missing => throw (.valueMissing name)
  | .value text => return some text

/-- The value of an option that must be there. -/
def required (arguments : Arguments) (name : String) : Command m String := do
  match ← option arguments name with
  | none => throw (.optionMissing name)
  | some text => return text

end Command

end SpeedupStudy
