/-
# What is found below a directory

The logs below a directory are the entries of the tree below it that are no directories and have the
name of a log. Places in the tree are lists of names and never pass through a link, so a link is an
entry like a file. Different places have paths that the order of paths tells apart, so each log has
one place in the list of the paths.
-/

import SpeedupStudy.Proofs.Calibration
import SpeedupStudy.Proofs.FileSystem.Entries

namespace SpeedupStudy

/-- The places of the logs among some entries and below them. -/
def logPlaces : List (Bytes × Node) → List (List Bytes)
  | [] => []
  | (name, .directory entries) :: rest => (logPlaces entries).map (name :: ·) ++ logPlaces rest
  | (name, .file _) :: rest => (if isLogName name then [[name]] else []) ++ logPlaces rest
  | (name, .link _) :: rest => (if isLogName name then [[name]] else []) ++ logPlaces rest

/-- The places of the logs that are an entry or below it. -/
def logPlacesOf (name : Bytes) : Node → List (List Bytes)
  | .directory entries => (logPlaces entries).map (name :: ·)
  | _ => if isLogName name then [[name]] else []

theorem logPlaces_eq_flatMap (entries : List (Bytes × Node)) :
    logPlaces entries = entries.flatMap fun (name, node) => logPlacesOf name node := by
  induction entries with
  | nil => simp [logPlaces]
  | cons entry rest ih =>
      obtain ⟨name, node⟩ := entry
      cases node <;> simp [logPlaces, logPlacesOf, ih]

theorem mem_logPlaces {entries : List (Bytes × Node)} {place : List Bytes} :
    place ∈ logPlaces entries ↔
      ∃ name node, (name, node) ∈ entries ∧ place ∈ logPlacesOf name node := by
  simp only [logPlaces_eq_flatMap, List.mem_flatMap, Prod.exists]

theorem logPlacesOf_leaf {node : Node} (leaf : node.isDirectory = false) (name : Bytes) :
    logPlacesOf name node = if isLogName name then [[name]] else [] := by
  cases node with
  | directory entries => cases leaf
  | file contents | link target => rfl

/-- The place of a log starts with the name of the entry that it is or is below. -/
theorem exists_cons_of_mem_logPlacesOf {name : Bytes} {node : Node} {place : List Bytes}
    (mem : place ∈ logPlacesOf name node) : ∃ rest, place = name :: rest := by
  cases node with
  | directory entries =>
      obtain ⟨rest, -, rfl⟩ := List.mem_map.mp mem
      exact ⟨rest, rfl⟩
  | file contents | link target =>
      rw [logPlacesOf_leaf rfl] at mem
      split at mem
      · exact ⟨[], List.mem_singleton.mp mem⟩
      · cases mem

/-- No log has two places. -/
theorem nodup_logPlaces (entries : List (Bytes × Node)) :
    (Node.directory entries).WellNamed → (logPlaces entries).Nodup := by
  induction entries using Node.entries_induction with
  | step entries ih =>
      intro wellNamed
      rw [logPlaces_eq_flatMap, List.nodup_flatMap]
      constructor
      · rintro ⟨name, node⟩ mem
        cases node with
        | directory below =>
            exact (ih name below mem (wellNamed.of_mem mem)).map fun _ _ => List.tail_eq_of_cons_eq
        | file contents | link target =>
            show (logPlacesOf name _).Nodup
            rw [logPlacesOf_leaf rfl]
            split <;> simp
      · refine (List.pairwise_map.mp wellNamed.named.distinct).imp ?_
        rintro ⟨name, node⟩ ⟨name', node'⟩ different place mem mem'
        obtain ⟨rest, rfl⟩ := exists_cons_of_mem_logPlacesOf mem
        obtain ⟨rest', same⟩ := exists_cons_of_mem_logPlacesOf mem'
        exact different (List.cons.inj same).1

/-- Whether a place below some entries is that of a log: it has the name of a log, and what is there
is no directory. -/
def IsLogAt (entries : List (Bytes × Node)) (place : List Bytes) : Prop :=
  ∃ above name node, place = above ++ [name] ∧ (Node.directory entries).at? place = some node ∧
    node.isDirectory = false ∧ isLogName name = true

section Entries

variable {entries below : List (Bytes × Node)} {name : Bytes} {node : Node} {place : List Bytes}

theorem isLogAt_cons_directory (named : Node.Named entries)
    (mem : (name, .directory below) ∈ entries) :
    IsLogAt entries (name :: place) ↔ IsLogAt below place := by
  rw [IsLogAt, Node.at?_cons_of_mem named mem, IsLogAt]
  constructor
  · rintro ⟨above, last, node, split, found, leaf, log⟩
    cases above with
    | nil =>
        obtain ⟨-, rfl⟩ := List.cons.inj split
        cases found
        cases leaf
    | cons first above => exact ⟨above, last, node, (List.cons.inj split).2, found, leaf, log⟩
  · rintro ⟨above, last, node, rfl, found, leaf, log⟩
    exact ⟨name :: above, last, node, rfl, found, leaf, log⟩

theorem isLogAt_cons_leaf (named : Node.Named entries) (mem : (name, node) ∈ entries)
    (leaf : node.isDirectory = false) :
    IsLogAt entries (name :: place) ↔ place = [] ∧ isLogName name = true := by
  rw [IsLogAt, Node.at?_cons_of_mem named mem]
  constructor
  · rintro ⟨above, last, other, split, found, -, log⟩
    cases place with
    | nil =>
        have last : name = last := by simpa using congrArg List.getLast? split
        exact ⟨rfl, last ▸ log⟩
    | cons first rest => cases node <;> first | cases found | cases leaf
  · rintro ⟨rfl, log⟩
    exact ⟨[], name, node, rfl, rfl, leaf, log⟩

/-- The places of logs are the places where there are logs. -/
theorem mem_logPlaces_iff (wellNamed : (Node.directory entries).WellNamed) :
    place ∈ logPlaces entries ↔ IsLogAt entries place := by
  induction place generalizing entries with
  | nil =>
      constructor
      · intro mem
        obtain ⟨name, node, -, here⟩ := mem_logPlaces.mp mem
        obtain ⟨rest, split⟩ := exists_cons_of_mem_logPlacesOf here
        cases split
      · rintro ⟨above, name, -, split, -⟩
        simp at split
  | cons first rest ih =>
      have named := wellNamed.named
      have entry : first :: rest ∈ logPlaces entries ↔
          ∃ node, (first, node) ∈ entries ∧ first :: rest ∈ logPlacesOf first node := by
        rw [mem_logPlaces]
        constructor
        · rintro ⟨name, node, mem, here⟩
          obtain ⟨rest', split⟩ := exists_cons_of_mem_logPlacesOf here
          obtain ⟨rfl, -⟩ := List.cons.inj split
          exact ⟨node, mem, here⟩
        · rintro ⟨node, mem, here⟩
          exact ⟨first, node, mem, here⟩
      have same : ∀ node, (first, node) ∈ entries →
          (first :: rest ∈ logPlacesOf first node ↔ IsLogAt entries (first :: rest)) := by
        intro node mem
        cases node with
        | directory below =>
            rw [isLogAt_cons_directory named mem, ← ih (wellNamed.of_mem mem)]
            exact List.mem_map_of_injective List.cons_injective
        | file contents | link target =>
            rw [isLogAt_cons_leaf named mem rfl, logPlacesOf_leaf rfl]
            split <;> simp_all
      rw [entry]
      constructor
      · rintro ⟨node, mem, here⟩
        exact (same node mem).mp here
      · intro log
        have log' := log
        obtain ⟨above, name, leaf, -, found, -⟩ := log'
        obtain ⟨node, child, -⟩ := Option.bind_eq_some_iff.mp found
        have mem := (Node.lookup_eq_some_iff_mem named.distinct).mp child
        exact ⟨node, mem, (same node mem).mpr log⟩

theorem isEntryName_of_mem_logPlaces (wellNamed : (Node.directory entries).WellNamed)
    (mem : place ∈ logPlaces entries) : ∀ name ∈ place, Path.IsEntryName name := by
  obtain ⟨above, name, node, -, found, -⟩ := (mem_logPlaces_iff wellNamed).mp mem
  exact wellNamed.isEntryName found

/-- The path of a log ends in the name of a log. -/
theorem fileName?_of_mem_logPlaces (root : Path) (wellNamed : (Node.directory entries).WellNamed)
    (mem : place ∈ logPlaces entries) :
    ∃ name, (root.joinAll place).fileName? = some name ∧ isLogName name = true := by
  have proper := isEntryName_of_mem_logPlaces wellNamed mem
  obtain ⟨above, name, node, rfl, -, -, log⟩ := (mem_logPlaces_iff wellNamed).mp mem
  exact ⟨name, Path.fileName?_joinAll root proper, log⟩

end Entries

/-- The paths of the logs below a directory are those of their places. -/
theorem logsBelow_listings (directory : Path) (entries : List (Bytes × Node)) :
    logsBelow directory (Node.listings entries) = (logPlaces entries).map directory.joinAll := by
  induction entries using logPlaces.induct generalizing directory with
  | case1 => simp [Node.listings, logsBelow, logPlaces]
  | case2 name below rest ihBelow ih =>
      rw [Node.listings, Node.listing, logsBelow, logPlaces, ihBelow, ih, List.map_append,
        List.map_map]
      rfl
  | case3 name _ rest ih | case4 name _ rest ih =>
      rw [Node.listings, Node.listing, logsBelow, logPlaces, ih]
      split
      · rw [List.map_append]
        rfl
      · rfl

theorem opensAll_listings_iff {root : Path} {entries : List (Bytes × Node)} :
    Disk.opensAll root (Node.listings entries) = true ↔
      ∀ name below, (name, .directory below) ∈ entries →
        (root.join name).problem? = none ∧
          Disk.opensAll (root.join name) (Node.listings below) = true := by
  induction entries with
  | nil => simp [Node.listings, Disk.opensAll]
  | cons entry rest ih =>
      obtain ⟨name, node⟩ := entry
      cases node with
      | file contents | link target => simp [Node.listings, Node.listing, Disk.opensAll, ih]
      | directory below =>
          simp only [Node.listings, Node.listing, Disk.opensAll, Bool.and_eq_true,
            Option.isNone_iff_eq_none, ih, List.mem_cons, Prod.mk.injEq, Node.directory.injEq]
          constructor
          · rintro ⟨first, later⟩ name' below' (⟨rfl, rfl⟩ | mem)
            · exact first
            · exact later name' below' mem
          · intro all
            exact ⟨all name below (.inl ⟨rfl, rfl⟩), fun name' below' mem =>
              all name' below' (.inr mem)⟩

/-- The directories below another one all have paths that a walk accepts, if the paths of their
places are such. -/
theorem opensAll_listings {entries : List (Bytes × Node)} (root : Path) :
    (Node.directory entries).WellNamed →
    (∀ names below, (Node.directory entries).at? names = some (.directory below) →
      names ≠ [] → (root.joinAll names).problem? = none) →
    Disk.opensAll root (Node.listings entries) = true := by
  induction entries using Node.entries_induction generalizing root with
  | step entries ih =>
      intro wellNamed accepted
      rw [opensAll_listings_iff]
      intro name below mem
      have inside := Node.at?_cons_of_mem wellNamed.named mem
      refine ⟨accepted [name] below (inside []) (List.cons_ne_nil _ _), ?_⟩
      refine ih name below mem (root.join name) (wellNamed.of_mem mem) ?_
      intro names others found _
      exact accepted (name :: names) others ((inside names).trans found) (List.cons_ne_nil _ _)

section Found

variable {disk : Disk} {root : Path} {entries : List (Bytes × Node)}
  (wellNamed : disk.top.WellNamed) (opened : disk.entriesOf root = .ok entries)

include wellNamed opened

theorem wellNamed_of_entriesOf : (Node.directory entries).WellNamed := by
  obtain ⟨place, resolved⟩ := Disk.entriesOf_eq_ok_iff.mp opened
  exact wellNamed.at? (Node.tells_resolve resolved)

/-- The logs below a directory whose directories can all be opened are those of the places of logs
below it. -/
theorem logsOn_of_opensBelow (opens : disk.OpensBelow root entries) :
    Calibration.logsOn disk root =
      .ok (sortBy Path.compare ((logPlaces entries).map root.joinAll)) := by
  obtain ⟨place, resolved⟩ := Disk.entriesOf_eq_ok_iff.mp opened
  have accepted : Disk.opensAll root (Node.listings entries) = true := by
    apply opensAll_listings root (wellNamed_of_entriesOf wellNamed opened)
    intro names below found _
    obtain ⟨others, opened'⟩ := opens names below found
    obtain ⟨place', resolved'⟩ := Disk.entriesOf_eq_ok_iff.mp opened'
    exact Node.problem?_of_resolve resolved'
  simp only [Calibration.logsOn, Disk.listing, resolved, accepted, if_true, logsBelow_listings]

/-- The order of paths tells different places of logs apart. -/
theorem eq_of_compare_logPlaces {place place' : List Bytes} (mem : place ∈ logPlaces entries)
    (mem' : place' ∈ logPlaces entries)
    (same : (root.joinAll place).compare (root.joinAll place') = .eq) : place = place' := by
  have named := wellNamed_of_entriesOf wellNamed opened
  exact Path.eq_of_compare_joinAll (isEntryName_of_mem_logPlaces named mem)
    (isEntryName_of_mem_logPlaces named mem') same

theorem nodup_map_logPlaces : ((logPlaces entries).map root.joinAll).Nodup := by
  apply (nodup_logPlaces entries (wellNamed_of_entriesOf wellNamed opened)).map_on
  intro place mem place' mem' same
  apply eq_of_compare_logPlaces wellNamed opened mem mem'
  rw [same]
  exact Std.ReflCmp.compare_self

theorem eq_of_compare_map_logPlaces : ∀ a ∈ (logPlaces entries).map root.joinAll,
    ∀ b ∈ (logPlaces entries).map root.joinAll, a.compare b = .eq → a = b := by
  intro a mem b mem' same
  obtain ⟨place, listed, rfl⟩ := List.mem_map.mp mem
  obtain ⟨place', listed', rfl⟩ := List.mem_map.mp mem'
  rw [eq_of_compare_logPlaces wellNamed opened listed listed' same]

/-- The logs below a directory are in strict order, which leaves no room for repetition. -/
theorem pairwise_sortBy_logPlaces :
    (sortBy Path.compare ((logPlaces entries).map root.joinAll)).Pairwise
      fun a b => a.compare b = .lt :=
  pairwise_lt_sortBy_of_apart (nodup_map_logPlaces wellNamed opened)
    (eq_of_compare_map_logPlaces wellNamed opened)

end Found

end SpeedupStudy
