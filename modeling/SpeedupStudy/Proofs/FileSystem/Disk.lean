/-
# Writing and reading back

A file that was written is read back through the same path, and so is every file that was there
before and was not written to. Paths are followed on the disk as it is after the writing.
-/

import SpeedupStudy.FileSystem.Disk
import SpeedupStudy.Proofs.FileSystem.Walk

namespace SpeedupStudy

namespace Disk

open Node

/-- The place of the file that a path leads to, if it leads to one. -/
def fileAt? (disk : Disk) (path : Path) : Option (List Bytes) :=
  match disk.top.resolve false path with
  | .ok (.present place (.file _)) => some place
  | _ => none

/-- Whether two paths lead to one file. -/
def SameFile (disk : Disk) (path path' : Path) : Prop :=
  ∃ place, disk.fileAt? path = some place ∧ disk.fileAt? path' = some place

/-- Whether a path leads to the file at a place with these contents. -/
def Holds (disk : Disk) (path : Path) (place : List Bytes) (contents : Bytes) : Prop :=
  disk.top.resolve false path = .ok (.present place (.file contents))

section Holds

variable {disk after : Disk} {path : Path} {place : List Bytes} {contents : Bytes}
  {written : List (List Bytes)}

theorem Holds.read (holds : disk.Holds path place contents) : disk.read path = .ok contents := by
  rw [Disk.read, holds]

theorem Holds.fileAt? (holds : disk.Holds path place contents) :
    disk.fileAt? path = some place := by
  rw [Disk.fileAt?, holds]

/-- A file keeps its place when the disk grows, and its contents unless it is written to. -/
theorem Holds.of_grows (holds : disk.Holds path place contents)
    (grows : Grows disk.top after.top written) :
    ∃ now, after.Holds path place now ∧ (place ∉ written → now = contents) := by
  obtain ⟨now, there, kept⟩ := grows place _ (tells_resolve holds)
  have stays : after.top.Now (.present place (.file contents)) (.file now) := ⟨there, nofun⟩
  exact ⟨now, resolve_of_grows grows id stays holds, kept⟩

/-- A file that is written to is then found at the path that was given. -/
theorem holds_of_write (root : disk.top.HasDirectory [])
    (done : disk.write path contents = .ok after) :
    ∃ place, after.Holds path place contents ∧ Grows disk.top after.top [place] := by
  unfold write at done
  cases resolved : disk.top.resolve true path with
  | error e => simp [resolved] at done
  | ok found =>
      have tells := tells_resolve resolved
      cases found with
      | absent above name =>
          simp only [resolved, Except.ok.injEq] at done
          subst done
          obtain ⟨directory, free⟩ := tells
          obtain ⟨entries, directory⟩ := directory root
          have grows : Grows disk.top (disk.top.put (above ++ [name]) (.file contents))
              [above ++ [name]] :=
            grows_put fun old there => by rw [free] at there; cases there
          have new : (disk.top.put (above ++ [name]) (.file contents)).Now (.absent above name)
              (.file contents) := ⟨at?_put directory name _, fun _ _ _ => ⟨contents, rfl⟩⟩
          exact ⟨_, resolve_of_grows grows (fun _ => rfl) new resolved, grows⟩
      | present place node =>
          cases node with
          | link target => simp [resolved] at done
          | directory entries => simp [resolved] at done
          | file before =>
              simp only [resolved, Except.ok.injEq] at done
              subst done
              have grows : Grows disk.top (disk.top.put place (.file contents)) [place] := by
                apply grows_put
                intro old there
                rw [tells, Option.some.injEq] at there
                exact ⟨before, contents, there.symm, rfl⟩
              have new : (disk.top.put place (.file contents)).Now (.present place (.file before))
                  (.file contents) := ⟨at?_put_file root tells _, nofun⟩
              exact ⟨_, resolve_of_grows grows (fun _ => rfl) new resolved, grows⟩

end Holds

/-- Only a disk whose top is a directory has anything to list. -/
theorem hasDirectory_of_listing {disk : Disk} {path : Path} {listing : Listing}
    (listed : disk.listing path = .ok (some listing)) : disk.top.HasDirectory [] := by
  unfold Disk.listing at listed
  cases resolved : disk.top.resolve false path with
  | error e => simp [resolved] at listed
  | ok place =>
      have tells := tells_resolve resolved
      cases place with
      | absent above name => simp [resolved] at listed
      | present place node =>
          cases node with
          | file contents => simp [resolved] at listed
          | link target => simp [resolved] at listed
          | directory entries => exact hasDirectory_nil_of_hasDirectory ⟨entries, tells⟩

/-- Below a directory that holds only files lies nothing but these files. -/
theorem listing_of_files {disk : Disk} {path : Path} {place : List Bytes}
    {files : List (Bytes × Bytes)}
    (resolved : disk.top.resolve false path =
      .ok (.present place (.directory (files.map fun file => (file.1, .file file.2))))) :
    disk.listing path = .ok (some (.directory (files.map fun file => (file.1, .other)))) := by
  have shapes : Node.listings (files.map fun file => (file.1, .file file.2)) =
      files.map fun file => (file.1, .other) := by
    clear resolved
    induction files with
    | nil => simp [Node.listings]
    | cons file rest ih => simp [Node.listings, Node.listing, ih]
  have opens : opensAll path (files.map fun file => (file.1, .other)) = true := by
    clear resolved shapes
    induction files with
    | nil => simp [opensAll]
    | cons file rest ih => simp [opensAll, ih]
  simp only [Disk.listing, resolved, shapes, opens, if_true]

section Directories

variable {disk after : Disk} {path : Path}

/-- The last name of a path belongs to a directory of the tree. -/
theorem exists_directory_of_lastEntry {unnamed : IoError} {place : List Bytes}
    {node? : Option Node} (found : disk.lastEntry path unnamed = .ok (place, node?)) :
    ∃ steps name above entries, path.lastName? = some (steps, name) ∧ place = above ++ [name] ∧
      disk.top.at? above = some (.directory entries) ∧ entries.lookup name = node? := by
  unfold lastEntry at found
  cases problem : path.problem? with
  | some e => simp [problem] at found
  | none =>
      cases last : path.lastName? with
      | none =>
          simp only [problem, last] at found
          cases walked : disk.top.directoryAt path.steps <;> simp [walked] at found
      | some parts =>
          obtain ⟨steps, name⟩ := parts
          simp only [problem, last] at found
          cases walked : disk.top.directoryAt steps with
          | error e => simp [walked] at found
          | ok reached =>
              obtain ⟨above, entries⟩ := reached
              simp only [walked] at found
              split at found
              · cases found
              · simp only [Except.ok.injEq, Prod.mk.injEq] at found
                obtain ⟨rfl, entry⟩ := found
                exact ⟨steps, name, above, entries, rfl, rfl, at?_of_directoryAt walked, entry⟩

/-- A place where the last name of a path is free is free in the tree. -/
theorem at?_eq_none_of_lastEntry {unnamed : IoError} {place : List Bytes}
    (free : disk.lastEntry path unnamed = .ok (place, none)) :
    disk.top.at? place = none := by
  obtain ⟨-, name, above, entries, -, rfl, directory, absent⟩ := exists_directory_of_lastEntry free
  rw [at?_entry directory, absent]

theorem grows_createDirectory
    (made : disk.createDirectory path = .ok after) : Grows disk.top after.top [] := by
  unfold createDirectory addEntry at made
  cases last : disk.lastEntry path .alreadyExists with
  | error e => simp [last] at made
  | ok found =>
      obtain ⟨place, node⟩ := found
      cases node with
      | some node => simp [last] at made
      | none =>
          simp only [last, Node.isDirectory, Bool.not_true, Bool.and_false, Bool.false_eq_true,
            if_false, Except.ok.injEq] at made
          subst made
          have free := at?_eq_none_of_lastEntry last
          exact (grows_put fun old there => by rw [free] at there; cases there).of_absent free

/-- Directories are made one by one, and the disk only grows. -/
theorem grows_createAll (disk : Disk) (path : Path) (components : List Component) :
    Grows disk.top (createAll path components disk).2.top [] := by
  induction components generalizing disk path with
  | nil => exact .refl _ _
  | cons component above ih =>
      rw [createAll]
      cases made : disk.createDirectory path with
      | ok after => exact grows_createDirectory made
      | error e =>
          cases e with
          | notFound =>
              simp only
              have below := ih disk (Path.ofComponents above.reverse)
              generalize createAll (Path.ofComponents above.reverse) above disk = attempt at below ⊢
              obtain ⟨result, between⟩ := attempt
              cases result with
              | error e => exact below
              | ok _ =>
                  cases again : between.createDirectory path with
                  | error e => simpa [again] using below
                  | ok after =>
                      simpa [again] using below.trans (grows_createDirectory again)
          | _ => exact .refl _ _

/-- Write a file, making the directories above it first. Directories that were made are kept. -/
def writeWithParents (disk : Disk) (path : Path) (contents : Bytes) : Except IoError Unit × Disk :=
  match path.parent? with
  | none => disk.keep (disk.write path contents)
  | some above =>
    if above.bytes.isEmpty then disk.keep (disk.write path contents)
    else
      match disk.createDirectories above with
      | (.error e, after) => (.error e, after)
      | (.ok (), after) => after.keep (after.write path contents)

/-- A program with a state of its own writes as the disk does. -/
theorem run_writeWithParents {σ : Type} (path : Path) (contents : Bytes) (state : σ) (disk : Disk) :
    ((Files.writeWithParents path contents : StateT σ DiskM (Except IoError Unit)).run state).run
      disk =
        (((disk.writeWithParents path contents).1, state),
          (disk.writeWithParents path contents).2) := by
  unfold Files.writeWithParents writeWithParents
  cases path.parent? with
  | none => rfl
  | some above =>
      by_cases empty : above.bytes.isEmpty = true
      · simp only [empty, if_true]
        rfl
      · simp only [empty, Bool.false_eq_true, if_false]
        have made : ((Files.createDirectories above : StateT σ DiskM (Except IoError Unit)).run
            state).run disk =
              (((disk.createDirectories above).1, state), (disk.createDirectories above).2) := rfl
        rw [StateT.run_bind, StateT.run_bind, made]
        generalize disk.createDirectories above = attempt
        obtain ⟨result, after⟩ := attempt
        cases result <;> rfl

theorem holds_of_keep {contents : Bytes} (root : disk.top.HasDirectory [])
    (done : disk.keep (disk.write path contents) = (.ok (), after)) :
    ∃ place, after.Holds path place contents ∧ Grows disk.top after.top [place] := by
  cases written : disk.write path contents with
  | error e => simp [written, keep] at done
  | ok new =>
      simp only [written, keep, Prod.mk.injEq, true_and] at done
      exact holds_of_write root (done ▸ written)

/-- A file that was written with the directories above it is found at the path that was given, and
other files are as they were. -/
theorem holds_of_writeWithParents {contents : Bytes} (root : disk.top.HasDirectory [])
    (done : disk.writeWithParents path contents = (.ok (), after)) :
    ∃ place, after.Holds path place contents ∧ Grows disk.top after.top [place] := by
  unfold writeWithParents at done
  cases parent : path.parent? with
  | none =>
      simp only [parent] at done
      exact holds_of_keep root done
  | some above =>
      simp only [parent] at done
      by_cases empty : above.bytes.isEmpty = true
      · rw [if_pos empty] at done
        exact holds_of_keep root done
      · rw [if_neg empty] at done
        have made : Grows disk.top (disk.createDirectories above).2.top [] :=
          grows_createAll disk above _
        generalize disk.createDirectories above = attempt at done made
        obtain ⟨result, between⟩ := attempt
        cases result with
        | error e => simp at done
        | ok _ =>
            obtain ⟨entries, directory⟩ := root
            obtain ⟨place, holds, grows⟩ := holds_of_keep (made.directory directory) done
            exact ⟨place, holds, made.trans grows⟩

end Directories

end Disk

end SpeedupStudy
