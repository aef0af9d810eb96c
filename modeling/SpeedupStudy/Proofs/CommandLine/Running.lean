/-
# Commands on a disk

The program runs on a disk with a fresh terminal. A command that succeeds makes it exit with zero,
and no other way to end does. What the parts of a command do to the disk is what the disk does.
-/

import SpeedupStudy.CommandLine.Commands
import SpeedupStudy.Proofs.Execution
import SpeedupStudy.Proofs.FileSystem.Disk

namespace SpeedupStudy

/-- What is left of a run of the program: its exit code, what it printed, and the disk. -/
structure Exit where
  code : UInt8
  terminal : Terminal
  disk : Disk

/-- Run the program on a disk. -/
def runOn (disk : Disk) (args : List String) : Exit :=
  let ((code, terminal), disk) := ((runProgram args : TerminalM UInt8).run {}).run disk
  ⟨code, terminal, disk⟩

/-- How the program exits after a command. -/
def Ended.exit : Ended Stop Terminal Unit → Exit
  | ⟨.ok (), terminal, disk⟩ => ⟨0, terminal, disk⟩
  | ⟨.error stop, terminal, disk⟩ =>
    ⟨stop.exitCode, { terminal with err := terminal.err ++ [stop.line] }, disk⟩

theorem Stop.exitCode_ne_zero (stop : Stop) : stop.exitCode ≠ 0 := by
  cases stop with
  | failed failure => cases failure <;> simp [exitCode]
  | valueMissing name => simp [exitCode]
  | optionMissing name => simp [exitCode]
  | pathMissing command => simp [exitCode]

/-- The program exits with zero only after a command that succeeded. -/
theorem Ended.eq_ok_of_exit_code {ended : Ended Stop Terminal Unit} (success : ended.exit.code = 0) :
    ended = ⟨.ok (), ended.state, ended.disk⟩ := by
  obtain ⟨result, terminal, disk⟩ := ended
  cases result with
  | error stop => exact absurd success stop.exitCode_ne_zero
  | ok _ => rfl

theorem Ended.disk_exit (ended : Ended Stop Terminal Unit) : ended.exit.disk = ended.disk := by
  obtain ⟨result, terminal, disk⟩ := ended
  cases result <;> rfl

/-- The program runs the command of its first argument. -/
theorem runOn_of_ofName? {name : String} {args : List String} {command : Command TerminalM Unit}
    (named : Command.ofName? name args = some command)
    (noHelp : (decide (name = "--help") || decide (name = "-h")) = false) (disk : Disk) :
    runOn disk (name :: args) = (onDisk command {} disk).exit := by
  unfold runOn runProgram onDisk
  simp only [noHelp, Bool.false_eq_true, if_false, named, StateT.run_bind]
  generalize command.run.run {} = program
  simp only [bind, StateT.run]
  obtain ⟨⟨result, terminal⟩, after⟩ := program disk
  cases result <;> rfl

theorem runOn_collect (disk : Disk) (args : List String) :
    runOn disk ("collect" :: args) = (onDisk (Command.collect ⟨args⟩) {} disk).exit :=
  runOn_of_ofName? rfl (by decide) disk

theorem runOn_calibrate (disk : Disk) (args : List String) :
    runOn disk ("calibrate" :: args) = (onDisk (Command.calibrate ⟨args⟩) {} disk).exit :=
  runOn_of_ofName? rfl (by decide) disk

theorem runOn_normalize (disk : Disk) (args : List String) :
    runOn disk ("normalize" :: args) = (onDisk (Command.normalize ⟨args⟩) {} disk).exit :=
  runOn_of_ofName? rfl (by decide) disk

section Parts

variable {σ : Type}

@[simp]
theorem onDisk_attempt {α : Type} (part : Attempt TerminalM α) (terminal : Terminal) (disk : Disk) :
    onDisk (Command.attempt part) terminal disk =
      ⟨(onDisk part terminal disk).result.mapError .failed, (onDisk part terminal disk).state,
        (onDisk part terminal disk).disk⟩ := by
  simp only [onDisk, Command.attempt, ExceptT.run_mk, StateT.run_bind]
  generalize part.run.run terminal = program
  simp only [bind, StateT.run]
  obtain ⟨⟨result, between⟩, after⟩ := program disk
  cases result <;> rfl

theorem Keeps.attempt {α : Type} {part : Attempt TerminalM α} (keeps : Keeps part) :
    Keeps (Command.attempt part) := by
  intro terminal disk
  rw [onDisk_attempt]
  exact keeps terminal disk

/-- A part of a command that gave a result gave it by itself. -/
theorem onDisk_of_onDisk_attempt {α : Type} {part : Attempt TerminalM α}
    {terminal terminal' : Terminal} {disk after : Disk} {a : α}
    (done : onDisk (Command.attempt part) terminal disk = ⟨.ok a, terminal', after⟩) :
    onDisk part terminal disk = ⟨.ok a, terminal', after⟩ := by
  rw [onDisk_attempt] at done
  generalize onDisk part terminal disk = ended at done ⊢
  obtain ⟨result, between, left⟩ := ended
  cases result with
  | error e => simp [Except.mapError] at done
  | ok b => simpa [Except.mapError] using done

@[simp]
theorem onDisk_print (line : String) (terminal : Terminal) (disk : Disk) :
    onDisk (Command.print line : Command TerminalM Unit) terminal disk =
      ⟨.ok (), { terminal with out := terminal.out ++ [line] }, disk⟩ :=
  rfl

@[simp]
theorem onDisk_printAll (lines : List String) (terminal : Terminal) (disk : Disk) :
    onDisk (Command.printAll lines : Command TerminalM Unit) terminal disk =
      ⟨.ok (), { terminal with out := terminal.out ++ lines }, disk⟩ := by
  induction lines generalizing terminal with
  | nil =>
      rw [List.append_nil]
      rfl
  | cons line rest ih =>
      have first : onDisk (Command.printAll (line :: rest) : Command TerminalM Unit) terminal disk =
          onDisk (Command.print line >>= fun _ => Command.printAll rest) terminal disk := rfl
      rw [first, onDisk_bind, onDisk_print, Ended.andThen_ok, ih, List.append_assoc]
      rfl

@[simp]
theorem onDisk_option (arguments : Arguments) (name : String) (terminal : Terminal) (disk : Disk) :
    onDisk (Command.option arguments name : Command TerminalM (Option String)) terminal disk =
      ⟨match arguments.find name with
        | .absent => .ok none
        | .missing => .error (.valueMissing name)
        | .value text => .ok (some text), terminal, disk⟩ := by
  unfold Command.option
  cases arguments.find name <;> rfl

@[simp]
theorem onDisk_required (arguments : Arguments) (name : String) (terminal : Terminal) (disk : Disk) :
    onDisk (Command.required arguments name : Command TerminalM String) terminal disk =
      ⟨match arguments.find name with
        | .absent => .error (.optionMissing name)
        | .missing => .error (.valueMissing name)
        | .value text => .ok text, terminal, disk⟩ := by
  rw [Command.required, onDisk_bind, onDisk_option]
  cases arguments.find name <;> rfl

theorem keeps_option (arguments : Arguments) (name : String) :
    Keeps (Command.option arguments name : Command TerminalM (Option String)) := by
  intro terminal disk
  rw [onDisk_option]

theorem keeps_required (arguments : Arguments) (name : String) :
    Keeps (Command.required arguments name : Command TerminalM String) := by
  intro terminal disk
  rw [onDisk_required]

theorem keeps_printAll (lines : List String) :
    Keeps (Command.printAll lines : Command TerminalM Unit) := by
  intro terminal disk
  rw [onDisk_printAll]

/-- The value of an option that must be there was found among the arguments. -/
theorem find_of_onDisk_required {arguments : Arguments} {name text : String}
    {terminal final : Terminal} {disk after : Disk}
    (done : onDisk (Command.required arguments name : Command TerminalM String) terminal disk =
      ⟨.ok text, final, after⟩) :
    arguments.find name = .value text ∧ terminal = final ∧ disk = after := by
  rw [onDisk_required] at done
  cases found : arguments.find name with
  | absent => simp [found] at done
  | missing => simp [found] at done
  | value text' =>
      rw [found] at done
      cases done
      exact ⟨rfl, rfl, rfl⟩

@[simp]
theorem onDisk_writeWithParents (path : Path) (contents : Bytes) (state : σ) (disk : Disk) :
    onDisk (Attempt.files (Files.writeWithParents path contents) : Attempt (StateT σ DiskM) Unit)
      state disk =
        ⟨(disk.writeWithParents path contents).1.mapError .io, state,
          (disk.writeWithParents path contents).2⟩ := by
  rw [onDisk_files, Disk.run_writeWithParents]

end Parts

end SpeedupStudy
