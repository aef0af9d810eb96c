/-
# Entries of directories

A directory tells its entries apart by their names, and an entry is found by the path of the
directory with the name after it. A path that leads to a directory, over links or not, leads on from
there: what it was followed for is done, and the name of the entry is the one step that is left. So
the directories below a directory are opened by the path of the first with the names below it, if
they can be opened at all.
-/

import SpeedupStudy.FileSystem.Disk
import SpeedupStudy.Proofs.FileSystem.Walk
import SpeedupStudy.Proofs.Path

namespace SpeedupStudy

namespace Path

/-- The steps of a path that is not empty, by its pieces between slashes. -/
theorem steps_of_split {p : Path} {first : Bytes} {rest : List Bytes}
    (split : Text.split slash p.bytes = first :: rest) (nonempty : p.bytes ≠ []) :
    p.steps = (if first.isEmpty then some .root else stepOf first) :: rest.map stepOf := by
  have several := not_both_empty split nonempty
  rw [steps, split]
  simp only
  split_ifs with empty single
  · exact absurd ⟨empty, single⟩ several
  all_goals rfl

/-- The walk to an entry has one step more than the walk to the directory, where slashes at the end
of the path of the directory do not count. -/
theorem steps_join {p : Path} {name : Bytes} (proper : IsEntryName name) (nonempty : p.bytes ≠ []) :
    ∃ front ending, (∀ step ∈ ending, step = none) ∧ p.steps = front ++ ending ∧
      (p.join name).steps = front ++ [some (.name name)] := by
  have one : stepOf name = some (.name name) := by
    rw [stepOf, if_neg (by simpa using proper.nonempty), componentOf?_eq_some proper]
    rfl
  rcases split_join p proper with ⟨empty, -⟩ | ⟨-, first, rest, ending, blank, pieces, pieces'⟩
  · exact absurd empty nonempty
  · refine ⟨(if first.isEmpty then some .root else stepOf first) :: rest.map stepOf,
      ending.map stepOf, ?_, ?_, ?_⟩
    · intro step mem
      obtain ⟨piece, listed, rfl⟩ := List.mem_map.mp mem
      rw [blank piece listed]
      rfl
    · rw [steps_of_split pieces nonempty, List.map_append, List.cons_append]
    · rw [steps_of_split pieces' (join_bytes_ne_nil p proper), List.map_append, List.map_singleton,
        one, List.cons_append]

end Path

namespace Node

section Walks

variable {top : Node} {making : Bool} {entries : List (Bytes × Node)} {place : List Bytes}
  {ending : List (Option Component)}

/-- Slashes at the end of a walk lead no further. -/
theorem walkVia_of_slashes
    {follow : List Bytes → List (Option Component) → Except IoError Place} {here : List Bytes}
    (slashes : ∀ step ∈ ending, step = none) :
    walkVia top making follow here ending = walkVia top making follow here [] := by
  induction ending with
  | nil => rfl
  | cons step rest ih =>
      obtain ⟨rfl, later⟩ := List.forall_mem_cons.mp slashes
      exact ih later

theorem exists_walkVia_append {links : Nat}
    {follow : List Bytes → List (Option Component) → Except IoError Place} {here : List Bytes}
    {front : List (Option Component)} (slashes : ∀ step ∈ ending, step = none)
    (self : walk top false links = walkVia top false follow)
    (followed : ∀ here front,
      follow here (front ++ ending) = .ok (.present place (.directory entries)) →
        ∃ links', ∀ further, follow here (front ++ further) = walk top false links' place further)
    (walked : walkVia top false follow here (front ++ ending) =
      .ok (.present place (.directory entries))) :
    ∃ links', ∀ further, walkVia top false follow here (front ++ further) =
      walk top false links' place further := by
  induction front generalizing here with
  | nil =>
      rw [List.nil_append, walkVia_of_slashes slashes, walkVia] at walked
      cases found : top.at? here with
      | none => simp [found] at walked
      | some node =>
          simp only [found, Except.ok.injEq, Place.present.injEq] at walked
          obtain ⟨rfl, -⟩ := walked
          exact ⟨links, fun further => by rw [self, List.nil_append]⟩
  | cons step rest ih =>
      cases step with
      | none => exact ih walked
      | some component =>
          cases component with
          | root => exact ih walked
          | here => exact ih walked
          | parent => exact ih walked
          | name name =>
              rw [List.cons_append] at walked
              obtain ⟨-, short, ⟨-, -, absent⟩ | ⟨contents, -, -, file⟩ |
                ⟨⟨others, found⟩, onward⟩ | ⟨target, found, onward⟩⟩ :=
                found_of_walkVia_name walked
              · cases absent
              · cases file
              · obtain ⟨links', on⟩ := ih onward
                refine ⟨links', fun further => ?_⟩
                rw [List.cons_append, walkVia, if_neg (by simp), if_neg (by omega)]
                simp only [found]
                exact on further
              · rw [← List.append_assoc] at onward
                obtain ⟨links', on⟩ := followed _ _ onward
                refine ⟨links', fun further => ?_⟩
                rw [List.cons_append, walkVia, if_neg (by simp), if_neg (by omega)]
                simp only [found]
                rw [← List.append_assoc]
                exact on further

/-- A walk that leads to a directory, be it over links, leads on from there. -/
theorem exists_walk_append {links : Nat} {here : List Bytes} {front : List (Option Component)}
    (slashes : ∀ step ∈ ending, step = none)
    (walked : walk top false links here (front ++ ending) =
      .ok (.present place (.directory entries))) :
    ∃ links', ∀ further, walk top false links here (front ++ further) =
      walk top false links' place further := by
  induction links generalizing here front with
  | zero =>
      refine exists_walkVia_append slashes (show walk top false 0 = _ from rfl) ?_ walked
      intro _ _ failed
      cases failed
  | succ links ih =>
      exact exists_walkVia_append slashes (show walk top false (links + 1) = _ from rfl)
        (fun _ _ => ih) walked

/-- A walk from a directory to one in it by a single name ends there, if it ends anywhere. -/
theorem walk_name {links : Nat} {here : List Bytes} {name : Bytes} {reached : Place}
    (found : top.at? (here ++ [name]) = some (.directory entries))
    (walked : walk top false links here [some (.name name)] = .ok reached) :
    reached = .present (here ++ [name]) (.directory entries) := by
  have stop : ∀ follow, walkVia top false follow here [some (.name name)] = .ok reached →
      reached = .present (here ++ [name]) (.directory entries) := by
    intro follow walked
    obtain ⟨-, -, ⟨free, -, -⟩ | ⟨contents, file, -, -⟩ | ⟨-, onward⟩ | ⟨target, link, -⟩⟩ :=
      found_of_walkVia_name walked
    · cases free.symm.trans found
    · cases file.symm.trans found
    · simp only [walkVia, found, Except.ok.injEq] at onward
      exact onward.symm
    · cases link.symm.trans found
  cases links with
  | zero => exact stop _ walked
  | succ links => exact stop _ walked

end Walks

section Names

/-- What tells the entries of a directory apart: names that a directory can give, each once. -/
structure Named (entries : List (Bytes × Node)) : Prop where
  proper : ∀ entry ∈ entries, Path.IsEntryName entry.1
  distinct : (entries.map (·.1)).Nodup

instance (entries : List (Bytes × Node)) : Decidable (Named entries) :=
  decidable_of_iff
    ((∀ name ∈ entries.map Prod.fst, Path.IsEntryName name) ∧ (entries.map Prod.fst).Nodup) (by
      rw [List.forall_mem_map]
      exact ⟨fun ⟨proper, distinct⟩ => ⟨proper, distinct⟩,
        fun ⟨proper, distinct⟩ => ⟨proper, distinct⟩⟩)

/-- Whether every directory of a tree tells its entries apart. -/
def WellNamed (top : Node) : Prop :=
  ∀ place entries, top.at? place = some (.directory entries) → Named entries

variable {top node : Node} {entries : List (Bytes × Node)} {name : Bytes} {place : List Bytes}

theorem lookup_eq_some_iff_mem (distinct : (entries.map (·.1)).Nodup) :
    entries.lookup name = some node ↔ (name, node) ∈ entries := by
  rw [List.lookup_eq_some_iff]
  constructor
  · rintro ⟨before, after, rfl, -⟩
    simp
  · intro mem
    obtain ⟨before, after, rfl⟩ := List.append_of_mem mem
    refine ⟨before, after, rfl, fun other earlier => ?_⟩
    rw [List.map_append, List.map_cons, List.nodup_append] at distinct
    rw [bne_iff_ne]
    exact (distinct.2.2 other.1 (List.mem_map_of_mem earlier) name List.mem_cons_self).symm

theorem WellNamed.named (wellNamed : (directory entries).WellNamed) : Named entries :=
  wellNamed [] entries rfl

/-- What is below an entry is found through the directory by the name of the entry. -/
theorem at?_cons_of_mem (named : Named entries) (mem : (name, node) ∈ entries)
    (place : List Bytes) : (directory entries).at? (name :: place) = node.at? place := by
  rw [Node.at?, child?, (lookup_eq_some_iff_mem named.distinct).mpr mem, Option.bind_some]

theorem WellNamed.at? (wellNamed : top.WellNamed) (found : top.at? place = some node) :
    node.WellNamed := by
  intro rest entries below
  refine wellNamed (place ++ rest) entries ?_
  rw [at?_append, found]
  exact below

theorem WellNamed.of_mem (wellNamed : (directory entries).WellNamed)
    (mem : (name, node) ∈ entries) : node.WellNamed :=
  wellNamed.at? (at?_cons_of_mem wellNamed.named mem [])

theorem wellNamed_of_leaf (leaf : node.isDirectory = false) : node.WellNamed := by
  intro place entries found
  cases node with
  | directory others => cases leaf
  | file contents | link target => cases place <;> cases found

@[simp]
theorem wellNamed_file (contents : Bytes) : (file contents).WellNamed :=
  wellNamed_of_leaf rfl

@[simp]
theorem wellNamed_link (target : Path) : (link target).WellNamed :=
  wellNamed_of_leaf rfl

/-- A directory that tells its entries apart is well named if all of them are. -/
theorem wellNamed_directory (named : Named entries)
    (below : ∀ entry ∈ entries, entry.2.WellNamed) : (directory entries).WellNamed := by
  intro place others found
  cases place with
  | nil =>
      cases found
      exact named
  | cons name rest =>
      obtain ⟨child, entry, further⟩ := Option.bind_eq_some_iff.mp found
      have mem := (lookup_eq_some_iff_mem named.distinct).mp entry
      exact below (name, child) mem rest others further

/-- The names that lead to a place are names of entries. -/
theorem WellNamed.isEntryName (wellNamed : top.WellNamed) (found : top.at? place = some node) :
    ∀ name ∈ place, Path.IsEntryName name := by
  induction place generalizing top with
  | nil => exact nofun
  | cons name rest ih =>
      obtain ⟨child, entry, below⟩ := Option.bind_eq_some_iff.mp found
      cases top with
      | file contents => cases entry
      | link target => cases entry
      | directory entries =>
          have named := wellNamed.named
          have mem := (lookup_eq_some_iff_mem named.distinct).mp entry
          exact List.forall_mem_cons.mpr
            ⟨named.proper _ mem, ih (wellNamed.of_mem mem) below⟩

/-- What holds of the entries of a directory as soon as it holds of those of each directory among
them holds of all entries. -/
theorem entries_induction {motive : List (Bytes × Node) → Prop}
    (step : ∀ entries, (∀ name below, (name, directory below) ∈ entries → motive below) →
      motive entries) (entries : List (Bytes × Node)) : motive entries :=
  step entries fun _ below _ => entries_induction step below
termination_by sizeOf entries
decreasing_by
  have smaller := List.sizeOf_lt_of_mem ‹_ ∈ entries›
  simp only [Prod.mk.sizeOf_spec, directory.sizeOf_spec] at smaller
  omega

end Names

section Resolving

variable {top : Node} {p : Path} {place : List Bytes} {entries below : List (Bytes × Node)}
  {name : Bytes}

theorem problem?_of_resolve {making : Bool} {reached : Place}
    (resolved : top.resolve making p = .ok reached) : p.problem? = none := by
  unfold resolve at resolved
  cases problem : p.problem? with
  | some e => simp [problem] at resolved
  | none => rfl

/-- The path of an entry that is a directory leads to it, if it leads anywhere. -/
theorem resolve_join (proper : Path.IsEntryName name)
    (resolved : top.resolve false p = .ok (.present place (.directory entries)))
    (found : entries.lookup name = some (.directory below)) {reached : Place}
    (opened : top.resolve false (p.join name) = .ok reached) :
    reached = .present (place ++ [name]) (.directory below) := by
  have tells := tells_resolve resolved
  have problem := problem?_of_resolve resolved
  have nonempty : p.bytes ≠ [] := by
    intro empty
    rw [Path.problem?, empty] at problem
    cases problem
  obtain ⟨front, ending, slashes, steps, steps'⟩ := Path.steps_join proper nonempty
  rw [resolve, problem, steps] at resolved
  obtain ⟨links, onward⟩ := exists_walk_append slashes resolved
  rw [resolve, problem?_of_resolve opened, steps'] at opened
  simp only [onward] at opened
  exact walk_name ((at?_entry tells name).trans found) opened

end Resolving

end Node

namespace Disk

/-- The entries of the directory that a path leads to. -/
def entriesOf (d : Disk) (p : Path) : Except IoError (List (Bytes × Node)) :=
  match d.top.resolve false p with
  | .error e => .error e
  | .ok (.present _ (.directory entries)) => .ok entries
  | .ok (.present _ _) => .error .notADirectory
  | .ok (.absent _ _) => .error .notFound

variable {disk : Disk} {root : Path} {entries below : List (Bytes × Node)} {names : List Bytes}

theorem entriesOf_eq_ok_iff : disk.entriesOf root = .ok entries ↔
    ∃ place, disk.top.resolve false root = .ok (.present place (.directory entries)) := by
  unfold entriesOf
  constructor
  · intro opened
    split at opened
    · cases opened
    · next place others resolved =>
        cases opened
        exact ⟨place, resolved⟩
    · cases opened
    · cases opened
  · rintro ⟨place, resolved⟩
    rw [resolved]

/-- Whether all directories below some entries can be opened by the path of their directory with
the names that lead to them. -/
def OpensBelow (disk : Disk) (root : Path) (entries : List (Bytes × Node)) : Prop :=
  ∀ names below, (Node.directory entries).at? names = some (.directory below) →
    ∃ others, disk.entriesOf (root.joinAll names) = .ok others

theorem opensBelow_of_mem (named : Node.Named entries)
    (opened : ∃ others, disk.entriesOf root = .ok others)
    (opens : ∀ name below, (name, .directory below) ∈ entries →
      disk.OpensBelow (root.join name) below) : disk.OpensBelow root entries := by
  intro names below found
  cases names with
  | nil => exact opened
  | cons name rest =>
      obtain ⟨child, entry, further⟩ := Option.bind_eq_some_iff.mp found
      have mem := (Node.lookup_eq_some_iff_mem named.distinct).mp entry
      cases child with
      | directory others => exact opens name others mem rest below further
      | file contents | link target => cases rest <;> cases further

/-- A directory below another one that can be opened has the entries that the tree has there. -/
theorem entriesOf_joinAll (wellNamed : disk.top.WellNamed)
    (opened : disk.entriesOf root = .ok entries) (opens : disk.OpensBelow root entries)
    (found : (Node.directory entries).at? names = some (.directory below)) :
    disk.entriesOf (root.joinAll names) = .ok below := by
  obtain ⟨place, resolved⟩ := entriesOf_eq_ok_iff.mp opened
  have named : (Node.directory entries).WellNamed := wellNamed.at? (Node.tells_resolve resolved)
  suffices ∀ names below, (Node.directory entries).at? names = some (.directory below) →
      disk.top.resolve false (root.joinAll names) =
        .ok (.present (place ++ names) (.directory below)) from
    entriesOf_eq_ok_iff.mpr ⟨_, this names below found⟩
  intro names
  induction names using List.reverseRecOn with
  | nil =>
      intro below found
      cases found
      rw [List.append_nil]
      exact resolved
  | append_singleton names name ih =>
      intro below found
      obtain ⟨others, above⟩ := Node.exists_directory_of_at?_append found
      have entry : others.lookup name = some (.directory below) :=
        (Node.at?_entry above name).symm.trans found
      have proper := named.isEntryName found name (by simp)
      obtain ⟨others', opened'⟩ := opens _ _ found
      obtain ⟨place', resolved'⟩ := entriesOf_eq_ok_iff.mp opened'
      rw [Path.joinAll_concat] at resolved' ⊢
      rw [resolved', Node.resolve_join proper (ih others above) entry resolved', List.append_assoc]

end Disk

end SpeedupStudy
