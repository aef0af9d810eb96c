/-
# Programs on a disk

A program with a state of its own on a disk is a function: it takes the state and the disk to a
result or an error, a state and a disk. What a composed program does is found from the outcomes of
its parts, and the operations on files do what the disk does.
-/

import Mathlib
import SpeedupStudy.CommandLine.Arguments

namespace SpeedupStudy

variable {ε σ α β : Type}

/-- What comes of a program that runs on a disk: a result or an error, its state at the end, and the
disk that it leaves. -/
structure Ended (ε σ α : Type) where
  result : Except ε α
  state : σ
  disk : Disk

/-- Run a program on a disk. -/
def onDisk (program : ExceptT ε (StateT σ DiskM) α) (state : σ) (disk : Disk) : Ended ε σ α :=
  let ((result, state), disk) := (program.run.run state).run disk
  ⟨result, state, disk⟩

/-- Go on with the result of a program that gave one. -/
def Ended.andThen (ended : Ended ε σ α) (next : α → ExceptT ε (StateT σ DiskM) β) : Ended ε σ β :=
  match ended.result with
  | .ok a => onDisk (next a) ended.state ended.disk
  | .error e => ⟨.error e, ended.state, ended.disk⟩

@[simp]
theorem Ended.andThen_ok (a : α) (state : σ) (disk : Disk)
    (next : α → ExceptT ε (StateT σ DiskM) β) :
    (Ended.mk (.ok a) state disk).andThen next = onDisk (next a) state disk :=
  rfl

@[simp]
theorem onDisk_pure (a : α) (state : σ) (disk : Disk) :
    onDisk (pure a : ExceptT ε (StateT σ DiskM) α) state disk = ⟨.ok a, state, disk⟩ :=
  rfl

@[simp]
theorem onDisk_throw (e : ε) (state : σ) (disk : Disk) :
    onDisk (throw e : ExceptT ε (StateT σ DiskM) α) state disk = ⟨.error e, state, disk⟩ :=
  rfl

/-- A composed program runs its first part and goes on with what that gave. -/
@[simp]
theorem onDisk_bind (program : ExceptT ε (StateT σ DiskM) α)
    (next : α → ExceptT ε (StateT σ DiskM) β) (state : σ) (disk : Disk) :
    onDisk (program >>= next) state disk = (onDisk program state disk).andThen next := by
  have step : ∀ outcome : (Except ε α × σ) × Disk,
      onDisk (σ := σ) (ExceptT.mk (ExceptT.bindCont next outcome.1.1)) outcome.1.2 outcome.2 =
        (Ended.mk outcome.1.1 outcome.1.2 outcome.2).andThen next := by
    rintro ⟨⟨result, state⟩, disk⟩
    cases result <;> rfl
  exact step ((program.run.run state).run disk)

/-- A composed program gives a result exactly if both parts do. -/
theorem onDisk_bind_eq_ok_iff {program : ExceptT ε (StateT σ DiskM) α}
    {next : α → ExceptT ε (StateT σ DiskM) β} {state final : σ} {disk disk' : Disk} {b : β} :
    onDisk (program >>= next) state disk = ⟨.ok b, final, disk'⟩ ↔
      ∃ a between middle, onDisk program state disk = ⟨.ok a, between, middle⟩ ∧
        onDisk (next a) between middle = ⟨.ok b, final, disk'⟩ := by
  rw [onDisk_bind]
  constructor
  · intro done
    cases first : onDisk program state disk with
    | mk result between middle =>
        rw [first] at done
        cases result with
        | error e => cases done
        | ok a => exact ⟨a, between, middle, rfl, done⟩
  · rintro ⟨a, between, middle, first, done⟩
    rw [first, Ended.andThen_ok, done]

/-- A composed program fails as its first part does, or as its second part does after the first one
gave a result. -/
theorem onDisk_bind_eq_error_iff {program : ExceptT ε (StateT σ DiskM) α}
    {next : α → ExceptT ε (StateT σ DiskM) β} {state final : σ} {disk disk' : Disk} {e : ε} :
    onDisk (program >>= next) state disk = ⟨.error e, final, disk'⟩ ↔
      onDisk program state disk = ⟨.error e, final, disk'⟩ ∨
      ∃ a between middle, onDisk program state disk = ⟨.ok a, between, middle⟩ ∧
        onDisk (next a) between middle = ⟨.error e, final, disk'⟩ := by
  rw [onDisk_bind]
  cases first : onDisk program state disk with
  | mk result between middle =>
      cases result with
      | error e' => simp [Ended.andThen]
      | ok a => simp

/-- An operation on files does what the disk does, and its failure is one of files. -/
theorem onDisk_files (operation : StateT σ DiskM (Except IoError α)) (state : σ)
    (disk : Disk) :
    onDisk (Attempt.files operation) state disk =
      ⟨((operation.run state).run disk).1.1.mapError .io, ((operation.run state).run disk).1.2,
        ((operation.run state).run disk).2⟩ := by
  simp only [onDisk, Attempt.files, ExceptT.run_mk, StateT.run_bind]
  generalize operation.run state = program
  simp only [bind, StateT.run]
  obtain ⟨⟨result, between⟩, after⟩ := program disk
  cases result <;> rfl

@[simp]
theorem onDisk_listing (root : Path) (state : σ) (disk : Disk) :
    onDisk (Attempt.files (Files.listing root) : Attempt (StateT σ DiskM) (Option Listing)) state
      disk = ⟨(disk.listing root).mapError .io, state, disk⟩ :=
  onDisk_files _ state disk

@[simp]
theorem onDisk_require_some (failure : Failure) (a : α) (state : σ) (disk : Disk) :
    onDisk (Attempt.require failure (some a)) state disk = ⟨.ok a, state, disk⟩ :=
  rfl

@[simp]
theorem onDisk_require_none (failure : Failure) (state : σ) (disk : Disk) :
    onDisk (Attempt.require failure (none : Option α)) state disk =
      ⟨.error failure, state, disk⟩ :=
  rfl

@[simp]
theorem onDisk_unlessAborted (result : Except Abort α) (state : σ) (disk : Disk) :
    onDisk (Attempt.unlessAborted result : Attempt (StateT σ DiskM) α) state disk =
      ⟨result.mapError Failure.aborted, state, disk⟩ := by
  cases result <;> rfl

/-- A file is read from the disk, and a failure to do so is passed on. -/
@[simp]
theorem onDisk_read (path : Path) (state : σ) (disk : Disk) :
    onDisk (ExceptT.lift (Files.read path) : Attempt (StateT σ DiskM) (Except IoError Bytes)) state
      disk = ⟨.ok (disk.read path), state, disk⟩ :=
  rfl

/-- Every result that a program can give has a property. -/
def Gives (program : ExceptT ε (StateT σ DiskM) α) (property : α → Prop) : Prop :=
  ∀ state disk a final after, onDisk program state disk = ⟨.ok a, final, after⟩ → property a

/-- A program never changes the disk. -/
def Keeps (program : ExceptT ε (StateT σ DiskM) α) : Prop :=
  ∀ state disk, (onDisk program state disk).disk = disk

/-- A program that fails leaves the disk as it was. -/
def KeepsOnFailure (program : ExceptT ε (StateT σ DiskM) α) : Prop :=
  ∀ state disk e final after, onDisk program state disk = ⟨.error e, final, after⟩ → after = disk

/-- Whatever comes of a program that never changes the disk, it leaves the disk that it found. -/
theorem Keeps.eq_of_onDisk {program : ExceptT ε (StateT σ DiskM) α} (keeps : Keeps program)
    {state final : σ} {disk after : Disk} {result : Except ε α}
    (done : onDisk program state disk = ⟨result, final, after⟩) : after = disk := by
  have kept := keeps state disk
  rwa [done] at kept

/-- Only the second part of a composed program may change the disk, if it does not fail. -/
theorem KeepsOnFailure.bind {program : ExceptT ε (StateT σ DiskM) α}
    {next : α → ExceptT ε (StateT σ DiskM) β} (keeps : Keeps program)
    (later : ∀ a, KeepsOnFailure (next a)) : KeepsOnFailure (program >>= next) := by
  intro state disk e final after ended
  rcases onDisk_bind_eq_error_iff.mp ended with failed | ⟨a, between, middle, done, failed⟩
  · exact keeps.eq_of_onDisk failed
  · obtain rfl := keeps.eq_of_onDisk done
    exact later a between _ e final after failed

/-- A composed program gives what its second part gives. -/
theorem Gives.bind {program : ExceptT ε (StateT σ DiskM) α}
    {next : α → ExceptT ε (StateT σ DiskM) β} {property : β → Prop}
    (gives : ∀ a, Gives (next a) property) : Gives (program >>= next) property := by
  intro state disk b final after done
  obtain ⟨a, between, middle, -, done⟩ := onDisk_bind_eq_ok_iff.mp done
  exact gives a between middle b final after done

/-- A program never changes the disk, and each error that it can end with has a property. -/
structure OnlyReads (program : ExceptT ε (StateT σ DiskM) α) (stops : ε → Prop) : Prop where
  keeps : Keeps program
  stops : ∀ state disk e final after, onDisk program state disk = ⟨.error e, final, after⟩ → stops e

/-- A composed program only reads if both parts do. -/
theorem OnlyReads.bind {program : ExceptT ε (StateT σ DiskM) α}
    {next : α → ExceptT ε (StateT σ DiskM) β} {stops : ε → Prop} (first : OnlyReads program stops)
    (later : ∀ a, OnlyReads (next a) stops) : OnlyReads (program >>= next) stops where
  keeps state disk := by
    rw [onDisk_bind]
    cases done : onDisk program state disk with
    | mk result between middle =>
        obtain rfl := first.keeps.eq_of_onDisk done
        cases result with
        | error e => rfl
        | ok a => exact (later a).keeps between _
  stops state disk e final after ended := by
    rcases onDisk_bind_eq_error_iff.mp ended with failed | ⟨a, between, middle, done, failed⟩
    · exact first.stops state disk e final after failed
    · exact (later a).stops between middle e final after failed

theorem OnlyReads.mono {program : ExceptT ε (StateT σ DiskM) α} {stops stops' : ε → Prop}
    (reads : OnlyReads program stops) (weaker : ∀ e, stops e → stops' e) :
    OnlyReads program stops' where
  keeps := reads.keeps
  stops state disk e final after failed := weaker e (reads.stops state disk e final after failed)

/-- Wherever a program fails on a disk, the error and the disk that it leaves have a property. -/
def FailsOn (disk : Disk) (program : ExceptT ε (StateT σ DiskM) α) (property : ε → Disk → Prop) :
    Prop :=
  ∀ state e final after, onDisk program state disk = ⟨.error e, final, after⟩ → property e after

section Failing

variable {program : ExceptT ε (StateT σ DiskM) α} {next : α → ExceptT ε (StateT σ DiskM) β}
  {disk : Disk} {property : ε → Disk → Prop}

/-- A composed program fails in its first part, or in its second part on the disk that the first one
leaves with its result. -/
theorem FailsOn.bind (first : FailsOn disk program property)
    (later : ∀ state a between middle, onDisk program state disk = ⟨.ok a, between, middle⟩ →
      FailsOn middle (next a) property) : FailsOn disk (program >>= next) property := by
  intro state e final after ended
  rcases onDisk_bind_eq_error_iff.mp ended with failed | ⟨a, between, middle, given, failed⟩
  · exact first state e final after failed
  · exact later state a between middle given between e final after failed

/-- After a part that only reads, the rest fails on the same disk. -/
theorem FailsOn.bind_of_onlyReads {stops : ε → Prop} (reads : OnlyReads program stops)
    (stopped : ∀ e, stops e → property e disk)
    (later : ∀ state a between, onDisk program state disk = ⟨.ok a, between, disk⟩ →
      FailsOn disk (next a) property) : FailsOn disk (program >>= next) property := by
  refine FailsOn.bind ?_ ?_
  · intro state e final after failed
    obtain rfl := reads.keeps.eq_of_onDisk failed
    exact stopped e (reads.stops state _ e final _ failed)
  · intro state a between middle given
    obtain rfl := reads.keeps.eq_of_onDisk given
    exact later state a between given

end Failing

end SpeedupStudy
