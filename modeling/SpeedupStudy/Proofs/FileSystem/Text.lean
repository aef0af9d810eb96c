/-
# Text files

A text is written to a file as its UTF-8 form and read back as the same text. A file that cannot be
written leaves the disk as it was.
-/

import SpeedupStudy.Proofs.Execution
import SpeedupStudy.Proofs.FileSystem.Disk

namespace SpeedupStudy

variable {σ : Type}

@[simp]
theorem onDisk_writeText (path : Path) (text : String) (state : σ) (disk : Disk) :
    onDisk (Attempt.files (Files.writeText path text) : Attempt (StateT σ DiskM) Unit) state disk =
      match disk.write path (Utf8.encode text) with
      | .ok after => ⟨.ok (), state, after⟩
      | .error e => ⟨.error (.io e), state, disk⟩ := by
  have done :
      ((Files.writeText path text : StateT σ DiskM (Except IoError Unit)).run state).run disk =
        (((disk.keep (disk.write path (Utf8.encode text))).1, state),
        (disk.keep (disk.write path (Utf8.encode text))).2) := rfl
  rw [onDisk_files, done]
  cases disk.write path (Utf8.encode text) <;> rfl

/-- The text of a file. -/
def Disk.readText (disk : Disk) (path : Path) : Except IoError String :=
  match disk.read path with
  | .error e => .error e
  | .ok bytes =>
    match Utf8.decode? bytes with
    | none => .error .notText
    | some text => .ok text

@[simp]
theorem onDisk_readText (path : Path) (state : σ) (disk : Disk) :
    onDisk (Attempt.files (Files.readText path) : Attempt (StateT σ DiskM) String) state disk =
      ⟨(disk.readText path).mapError .io, state, disk⟩ := by
  have done : ((Files.readText path : StateT σ DiskM (Except IoError String)).run state).run disk =
      ((disk.readText path, state), disk) := by
    have opened : ((Files.read path : StateT σ DiskM (Except IoError Bytes)).run state).run disk =
        ((disk.read path, state), disk) := rfl
    rw [Files.readText, StateT.run_bind, StateT.run_bind, opened, Disk.readText]
    simp only [bind]
    cases disk.read path with
    | error e => rfl
    | ok bytes => cases decoded : Utf8.decode? bytes <;> simp only [decoded] <;> rfl
  rw [onDisk_files, done]

/-- A file that holds the form of a text is read as that text. -/
theorem Disk.readText_of_read {disk : Disk} {path : Path} {text : String}
    (found : disk.read path = .ok (Utf8.encode text)) : disk.readText path = .ok text := by
  simp only [readText, found, Utf8.decode?_encode]

/-- A text that was written to a file is read back. -/
theorem Disk.readText_of_write {disk after : Disk} {path : Path} {text : String}
    (root : disk.top.HasDirectory []) (done : disk.write path (Utf8.encode text) = .ok after) :
    after.readText path = .ok text := by
  obtain ⟨place, holds, -⟩ := Disk.holds_of_write root done
  exact readText_of_read holds.read

/-- Whether a value is kept by a file: saving writes a text, and then loading gives the value. Where
the text cannot be written, saving says why and leaves the disk as it was. -/
def KeptInFile {α : Type} (path : Path) (text : String) (a : α)
    (save : Attempt (StateT σ DiskM) Unit) (load : Attempt (StateT σ DiskM) α) : Prop :=
  ∀ (entries : List (Bytes × Node)) (state : σ),
    let disk : Disk := ⟨.directory entries⟩
    match disk.write path (Utf8.encode text) with
    | .ok after =>
      onDisk save state disk = ⟨.ok (), state, after⟩ ∧
        onDisk load state after = ⟨.ok a, state, after⟩
    | .error e => onDisk save state disk = ⟨.error (.io e), state, disk⟩

/-- A value is kept by a file if its text is written and is read as the value. -/
theorem keptInFile_of_read {α : Type} {path : Path} {text : String} {a : α}
    {save : Attempt (StateT σ DiskM) Unit} {load : Attempt (StateT σ DiskM) α}
    (writes : save = Attempt.files (Files.writeText path text))
    (reads : ∀ (disk : Disk) (state : σ), disk.readText path = .ok text →
      onDisk load state disk = ⟨.ok a, state, disk⟩) : KeptInFile path text a save load := by
  intro entries state disk
  rw [writes, onDisk_writeText]
  cases done : disk.write path (Utf8.encode text) with
  | error e => rfl
  | ok after => exact ⟨rfl, reads after state (Disk.readText_of_write ⟨entries, rfl⟩ done)⟩

end SpeedupStudy
