/-
# Disks made from nothing

A path gives a directory no name that it cannot have, and an entry of a name takes the place of the
entry that had it. So on a disk that was made from an empty one by writing files, making directories
and links and removing entries, every directory tells its entries apart.
-/

import SpeedupStudy.Proofs.FileSystem.Disk
import SpeedupStudy.Proofs.FileSystem.Entries

namespace SpeedupStudy

namespace Path

/-- The names on the way of a path are names of entries. -/
theorem isEntryName_of_mem_steps {p : Path} {name : Bytes} (mem : some (.name name) ∈ p.steps) :
    IsEntryName name := by
  have piece : ∀ bytes ∈ Text.split slash p.bytes, stepOf bytes = some (.name name) →
      IsEntryName name := by
    intro bytes listed named
    simp only [stepOf, componentOf?, Option.ite_none_left_eq_some, Option.some.injEq] at named
    obtain ⟨nonempty, named⟩ := named
    split at named
    · cases named
    · next noDot =>
        split at named
        · cases named
        · next noDots =>
            obtain rfl : bytes = name := by simpa using named
            exact ⟨by simpa using nonempty, Text.not_mem_of_mem_split listed, by simp_all,
              by simpa using noDots⟩
  obtain ⟨first, rest, pieces⟩ :=
    List.exists_cons_of_ne_nil (Text.splitWhen_ne_nil (· == slash) p.bytes)
  have split : Text.split slash p.bytes = first :: rest := pieces
  rw [steps, split] at mem
  rw [split] at piece
  simp only [List.mem_append] at mem
  rcases mem with start | later
  · split at start
    · split at start <;> simp at start
    · exact piece first List.mem_cons_self (List.mem_singleton.mp start).symm
  · obtain ⟨bytes, listed, named⟩ := List.mem_map.mp later
    exact piece bytes (List.mem_cons_of_mem _ listed) named

theorem isEntryName_of_lastName? {p : Path} {above : List (Option Component)} {name : Bytes}
    (last : p.lastName? = some (above, name)) : IsEntryName name := by
  unfold lastName? at last
  split at last
  · next others found =>
      cases last
      apply isEntryName_of_mem_steps
      rw [← List.mem_reverse]
      exact (List.dropWhile_sublist _).mem (found ▸ List.mem_cons_self)
  · cases last

end Path

namespace Node

section Walks

variable {top : Node} {making : Bool} {here above : List Bytes} {steps : List (Option Component)}
  {name : Bytes}

theorem isEntryName_of_walkVia
    {follow : List Bytes → List (Option Component) → Except IoError Place}
    (followed : ∀ here steps, (∀ name, some (.name name) ∈ steps → Path.IsEntryName name) →
      follow here steps = .ok (.absent above name) → Path.IsEntryName name)
    (proper : ∀ name, some (.name name) ∈ steps → Path.IsEntryName name)
    (walked : walkVia top making follow here steps = .ok (.absent above name)) :
    Path.IsEntryName name := by
  induction steps generalizing here with
  | nil =>
      rw [walkVia] at walked
      cases found : top.at? here <;> simp [found] at walked
  | cons step rest ih =>
      have later : ∀ name, some (.name name) ∈ rest → Path.IsEntryName name := fun name mem =>
        proper name (List.mem_cons_of_mem _ mem)
      cases step with
      | none => exact ih later walked
      | some component =>
          cases component with
          | root => exact ih later walked
          | here => exact ih later walked
          | parent => exact ih later walked
          | name other =>
              obtain ⟨-, -, ⟨-, -, free⟩ | ⟨contents, -, -, file⟩ | ⟨-, onward⟩ |
                ⟨target, -, onward⟩⟩ := found_of_walkVia_name walked
              · cases free
                exact proper _ List.mem_cons_self
              · cases file
              · exact ih later onward
              · refine followed _ _ (fun name mem => ?_) onward
                rcases List.mem_append.mp mem with inTarget | mem
                · exact Path.isEntryName_of_mem_steps inTarget
                · exact later name mem

/-- Where a walk finds a name free, an entry can have this name. -/
theorem isEntryName_of_walk {links : Nat}
    (proper : ∀ name, some (.name name) ∈ steps → Path.IsEntryName name)
    (walked : walk top making links here steps = .ok (.absent above name)) :
    Path.IsEntryName name := by
  induction links generalizing here steps with
  | zero =>
      refine isEntryName_of_walkVia ?_ proper walked
      intro _ _ _ failed
      cases failed
  | succ links ih => exact isEntryName_of_walkVia (fun _ _ => ih) proper walked

theorem isEntryName_of_resolve {p : Path}
    (resolved : top.resolve making p = .ok (.absent above name)) : Path.IsEntryName name := by
  rw [resolve, problem?_of_resolve resolved] at resolved
  exact isEntryName_of_walk (fun _ => Path.isEntryName_of_mem_steps) resolved

end Walks

section Changes

variable {top new node : Node} {entries : List (Bytes × Node)} {name : Bytes} {place : List Bytes}

/-- An entry that is set is put in the place of the entry of its name, or at the end. -/
theorem map_fst_setEntry (name : Bytes) (node : Node) (entries : List (Bytes × Node)) :
    (setEntry name node entries).map (·.1) =
      if name ∈ entries.map (·.1) then entries.map (·.1) else entries.map (·.1) ++ [name] := by
  induction entries with
  | nil => rfl
  | cons entry rest ih =>
      obtain ⟨key, old⟩ := entry
      by_cases same : key = name
      · subst same
        simp [setEntry]
      · rw [setEntry, if_neg same, List.map_cons, ih, List.map_cons]
        by_cases listed : name ∈ rest.map (·.1)
        · rw [if_pos listed, if_pos (List.mem_cons_of_mem _ listed)]
        · rw [if_neg listed, if_neg (by simpa [Ne.symm same] using listed), List.cons_append]

theorem eq_or_mem_of_mem_setEntry {entry : Bytes × Node}
    (mem : entry ∈ setEntry name node entries) : entry = (name, node) ∨ entry ∈ entries := by
  induction entries with
  | nil => exact .inl (List.mem_singleton.mp mem)
  | cons first rest ih =>
      obtain ⟨key, old⟩ := first
      rw [SpeedupStudy.setEntry] at mem
      split at mem
      · next same =>
          subst same
          exact (List.mem_cons.mp mem).imp id (List.mem_cons_of_mem _)
      · rcases List.mem_cons.mp mem with rfl | later
        · exact .inr List.mem_cons_self
        · exact (ih later).imp id (List.mem_cons_of_mem _)

theorem WellNamed.setEntry (wellNamed : (directory entries).WellNamed)
    (proper : Path.IsEntryName name) (good : node.WellNamed) :
    (directory (setEntry name node entries)).WellNamed := by
  have named := wellNamed.named
  refine wellNamed_directory ⟨?_, ?_⟩ ?_
  · intro entry mem
    rcases eq_or_mem_of_mem_setEntry mem with rfl | mem
    · exact proper
    · exact named.proper entry mem
  · rw [map_fst_setEntry]
    split
    · exact named.distinct
    · next free =>
        refine List.nodup_append.mpr ⟨named.distinct, List.nodup_singleton name, ?_⟩
        rintro other listed last mem rfl
        exact free (List.mem_singleton.mp mem ▸ listed)
  · intro entry mem
    rcases eq_or_mem_of_mem_setEntry mem with rfl | mem
    · exact good
    · exact wellNamed.of_mem mem

/-- Nothing can be put below what is no directory. -/
theorem put_leaf (leaf : top.isDirectory = false) (name : Bytes) (rest : List Bytes) (new : Node) :
    top.put (name :: rest) new = top := by
  cases top with
  | directory entries => cases leaf
  | file contents | link target => cases rest <;> rfl

/-- A tree stays well named when a well named one is put at a place whose names entries can have. -/
theorem WellNamed.put (wellNamed : top.WellNamed) (good : new.WellNamed)
    (proper : ∀ name ∈ place, Path.IsEntryName name) : (top.put place new).WellNamed := by
  induction place generalizing top with
  | nil => cases top <;> exact good
  | cons name rest ih =>
      obtain ⟨first, later⟩ := List.forall_mem_cons.mp proper
      cases top with
      | file contents | link target => rwa [put_leaf rfl]
      | directory entries =>
          cases entry : entries.lookup name with
          | some old =>
              have mem := (lookup_eq_some_iff_mem wellNamed.named.distinct).mp entry
              rw [put_cons entry]
              exact wellNamed.setEntry first (ih (wellNamed.of_mem mem) later)
          | none =>
              cases rest with
              | nil => exact wellNamed.setEntry first good
              | cons second others =>
                  rw [Node.put.eq_def]
                  simpa only [entry] using wellNamed

/-- A tree stays well named when an entry is put into a directory of it. -/
theorem WellNamed.put_entry (wellNamed : top.WellNamed) (good : new.WellNamed)
    (inside : top.HasDirectory [] → top.HasDirectory place) (proper : Path.IsEntryName name) :
    (top.put (place ++ [name]) new).WellNamed := by
  cases top with
  | file contents | link target =>
      obtain ⟨first, rest, split⟩ :=
        List.exists_cons_of_ne_nil
          (List.append_ne_nil_of_right_ne_nil place (by simp : [name] ≠ []))
      rwa [split, put_leaf rfl]
  | directory entries =>
      obtain ⟨others, found⟩ := inside ⟨entries, rfl⟩
      refine wellNamed.put good (List.forall_mem_append.mpr ⟨wellNamed.isEntryName found, ?_⟩)
      exact List.forall_mem_singleton.mpr proper

/-- A tree stays well named when something is removed from it. -/
theorem WellNamed.remove (wellNamed : top.WellNamed) (place : List Bytes) :
    (Node.remove place top).WellNamed := by
  induction place generalizing top with
  | nil => cases top <;> exact wellNamed
  | cons name rest ih =>
      cases top with
      | file contents | link target => cases rest <;> exact wellNamed
      | directory entries =>
          have named := wellNamed.named
          cases rest with
          | nil =>
              refine wellNamed_directory ⟨?_, ?_⟩ ?_
              · exact fun entry mem => named.proper entry (List.mem_filter.mp mem).1
              · exact named.distinct.sublist (List.filter_sublist.map _)
              · exact fun entry mem => wellNamed.of_mem (List.mem_filter.mp mem).1
          | cons second others =>
              rw [Node.remove.eq_def]
              cases entry : entries.lookup name with
              | none => simpa only [entry] using wellNamed
              | some old =>
                  have mem := (lookup_eq_some_iff_mem named.distinct).mp entry
                  simp only [entry]
                  exact wellNamed.setEntry (named.proper _ mem) (ih (wellNamed.of_mem mem))

end Changes

end Node

namespace Disk

section Operations

variable {disk after : Disk} {path : Path} (wellNamed : disk.top.WellNamed)

include wellNamed

theorem wellNamed_of_write {contents : Bytes} (done : disk.write path contents = .ok after) :
    after.top.WellNamed := by
  unfold write at done
  cases resolved : disk.top.resolve true path with
  | error e => simp [resolved] at done
  | ok found =>
      have tells := Node.tells_resolve resolved
      cases found with
      | absent above name =>
          simp only [resolved, Except.ok.injEq] at done
          subst done
          exact wellNamed.put_entry (Node.wellNamed_file contents) tells.1
            (Node.isEntryName_of_resolve resolved)
      | present place node =>
          cases node with
          | link target => simp [resolved] at done
          | directory entries => simp [resolved] at done
          | file before =>
              simp only [resolved, Except.ok.injEq] at done
              subst done
              exact wellNamed.put (Node.wellNamed_file contents) (wellNamed.isEntryName tells)

theorem wellNamed_of_addEntry {node : Node} (good : node.WellNamed)
    (done : disk.addEntry path node = .ok after) : after.top.WellNamed := by
  unfold addEntry at done
  cases last : disk.lastEntry path .alreadyExists with
  | error e => simp [last] at done
  | ok found =>
      obtain ⟨place, node?⟩ := found
      obtain ⟨steps, name, above, entries, named, rfl, directory, -⟩ :=
        exists_directory_of_lastEntry last
      cases node? with
      | some old => simp [last] at done
      | none =>
          simp only [last] at done
          split at done
          · cases done
          · cases done
            exact wellNamed.put_entry good (fun _ => ⟨entries, directory⟩)
              (Path.isEntryName_of_lastName? named)

theorem wellNamed_of_createLink {target : Path} (done : disk.createLink path target = .ok after) :
    after.top.WellNamed := by
  unfold createLink at done
  split at done
  · cases done
  · split at done
    · cases done
    · exact wellNamed_of_addEntry wellNamed (Node.wellNamed_link target) done

theorem wellNamed_of_remove (done : disk.remove path = .ok after) : after.top.WellNamed := by
  unfold remove at done
  split at done
  · cases done
  · cases done
  · cases done
  · split at done
    · cases done
    · cases done
      exact wellNamed.remove _

end Operations

/-- A disk that was made from an empty one, by one operation after another. -/
inductive Made : Disk → Prop
  | empty : Made {}
  | write {disk after : Disk} {path : Path} {contents : Bytes} (made : Made disk)
      (done : disk.write path contents = .ok after) : Made after
  | createDirectory {disk after : Disk} {path : Path} (made : Made disk)
      (done : disk.createDirectory path = .ok after) : Made after
  | createLink {disk after : Disk} {path target : Path} (made : Made disk)
      (done : disk.createLink path target = .ok after) : Made after
  | remove {disk after : Disk} {path : Path} (made : Made disk)
      (done : disk.remove path = .ok after) : Made after

/-- Directories are made one by one, also where a failure ends this. -/
theorem Made.createAll {disk : Disk} (made : Made disk) (path : Path)
    (components : List Component) : Made (Disk.createAll path components disk).2 := by
  induction components generalizing disk path with
  | nil => exact made
  | cons component above ih =>
      rw [Disk.createAll]
      cases done : disk.createDirectory path with
      | ok after => exact made.createDirectory done
      | error e =>
          cases e with
          | notFound =>
              simp only
              have below := ih made (Path.ofComponents above.reverse)
              generalize Disk.createAll (Path.ofComponents above.reverse) above disk = attempt
                at below ⊢
              obtain ⟨result, between⟩ := attempt
              cases result with
              | error e => exact below
              | ok _ =>
                  cases again : between.createDirectory path with
                  | error e => simpa [again] using below
                  | ok after => simpa [again] using below.createDirectory again
          | _ => exact made

theorem Made.writeWithParents {disk : Disk} (made : Made disk) (path : Path) (contents : Bytes) :
    Made (disk.writeWithParents path contents).2 := by
  have written : ∀ {disk : Disk}, Made disk → Made (disk.keep (disk.write path contents)).2 := by
    intro disk made
    cases done : disk.write path contents with
    | error e => exact made
    | ok after => exact made.write done
  unfold Disk.writeWithParents
  split
  · exact written made
  · next above _ =>
      split
      · exact written made
      · have directories := made.createAll above above.components.reverse
        split
        · next e after failed =>
            rw [Disk.createDirectories] at failed
            rwa [failed] at directories
        · next after done =>
            rw [Disk.createDirectories] at done
            rw [done] at directories
            exact written directories

/-- Every directory of a disk that was made from an empty one tells its entries apart. -/
theorem Made.wellNamed {disk : Disk} (made : Made disk) : disk.top.WellNamed := by
  have none : (Node.directory []).WellNamed :=
    Node.wellNamed_directory (by decide) nofun
  induction made with
  | empty => exact none
  | write _ done ih => exact wellNamed_of_write ih done
  | createDirectory _ done ih => exact wellNamed_of_addEntry ih none done
  | createLink _ done ih => exact wellNamed_of_createLink ih done
  | remove _ done ih => exact wellNamed_of_remove ih done

end Disk

end SpeedupStudy
