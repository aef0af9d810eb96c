/-
# One directory at a time

The logs below a directory can be found with a list of directories that are still to be opened, the
first of which is opened next: the directories in it are put on the list and the logs in it to those
that were found. Nothing but a directory of the tree is ever put on the list, and each of them once,
so each step takes one of them off for good and the search ends after as many steps as there are
directories, wherever links lead. In between, the logs that were found and those below the
directories on the list are together the logs to be found.
-/

import SpeedupStudy.Proofs.Collection.Discovery
import SpeedupStudy.Proofs.Collection.Rows
import SpeedupStudy.Proofs.Run.Extension

namespace SpeedupStudy

/-- A search for logs: the directories that are still to be opened, and the logs that were found. -/
structure Search where
  pending : List Path
  found : List Path := []

namespace Search

/-- The search after one more entry of a directory. -/
def takeEntry (directory : Path) (s : Search) (entry : Bytes × Node) : Search :=
  if entry.2.isDirectory then { s with pending := directory.join entry.1 :: s.pending }
  else if isLogName entry.1 then { s with found := s.found ++ [directory.join entry.1] }
  else s

/-- The search after one more directory. -/
def step (disk : Disk) (s : Search) : Except IoError Search :=
  match s.pending with
  | [] => .ok s
  | directory :: rest =>
    (disk.entriesOf directory).map (List.foldl (takeEntry directory) { s with pending := rest })

/-- The search after so many more directories. -/
def run (disk : Disk) : Nat → Search → Except IoError Search
  | 0, s => .ok s
  | steps + 1, s => (step disk s).bind (run disk steps)

end Search

section Entries

/-- The directories among some entries. -/
def subdirectories : List (Bytes × Node) → List (Bytes × List (Bytes × Node))
  | [] => []
  | (name, .directory below) :: rest => (name, below) :: subdirectories rest
  | (_, .file _) :: rest => subdirectories rest
  | (_, .link _) :: rest => subdirectories rest

/-- The names of the logs among some entries. -/
def logNames (entries : List (Bytes × Node)) : List Bytes :=
  (entries.filter fun entry => ! entry.2.isDirectory && isLogName entry.1).map (·.1)

/-- The number of directories below some entries. -/
def directoryCount : List (Bytes × Node) → Nat
  | [] => 0
  | (_, .directory below) :: rest => directoryCount below + 1 + directoryCount rest
  | (_, .file _) :: rest => directoryCount rest
  | (_, .link _) :: rest => directoryCount rest

variable {entries below : List (Bytes × Node)} {name : Bytes}

theorem mem_subdirectories_iff :
    (name, below) ∈ subdirectories entries ↔ (name, .directory below) ∈ entries := by
  induction entries with
  | nil => simp [subdirectories]
  | cons entry rest ih =>
      obtain ⟨name', node⟩ := entry
      cases node <;> simp [subdirectories, ih]

theorem directoryCount_eq_sum (entries : List (Bytes × Node)) : directoryCount entries =
    ((subdirectories entries).map fun (_, below) => directoryCount below + 1).sum := by
  induction entries with
  | nil => simp [directoryCount, subdirectories]
  | cons entry rest ih =>
      obtain ⟨name, node⟩ := entry
      cases node <;> simp [directoryCount, subdirectories, ih]

theorem logNames_cons_directory (rest : List (Bytes × Node)) :
    logNames ((name, .directory below) :: rest) = logNames rest := by
  simp [logNames, Node.isDirectory]

theorem logNames_cons_leaf {node : Node} (leaf : node.isDirectory = false)
    (rest : List (Bytes × Node)) : logNames ((name, node) :: rest) =
      (if isLogName name then [name] else []) ++ logNames rest := by
  by_cases log : isLogName name = true <;> simp [logNames, leaf, log]

/-- The logs of some entries are those among them and those below the directories among them. -/
theorem logPlaces_perm (entries : List (Bytes × Node)) : (logPlaces entries).Perm
    ((logNames entries).map ([·]) ++
      (subdirectories entries).flatMap fun (name, below) => (logPlaces below).map (name :: ·)) := by
  induction entries with
  | nil => simp [logPlaces, logNames, subdirectories]
  | cons entry rest ih =>
      obtain ⟨name, node⟩ := entry
      cases node with
      | directory below =>
          rw [logPlaces, logNames_cons_directory, subdirectories, List.flatMap_cons]
          exact (ih.append_left _).trans (List.perm_append_comm_assoc _ _ _)
      | file contents | link target =>
          rw [logPlaces, logNames_cons_leaf rfl, subdirectories, List.map_append, List.append_assoc]
          refine List.Perm.append (.of_eq ?_) ih
          split <;> rfl

/-- Taking all entries of a directory puts the directories among them on the list, the last one
first, and adds the logs among them to those that were found. -/
theorem foldl_takeEntry (directory : Path) (s : Search) (entries : List (Bytes × Node)) :
    entries.foldl (Search.takeEntry directory) s =
      ⟨((subdirectories entries).map fun (name, _) => directory.join name).reverse ++ s.pending,
        s.found ++ (logNames entries).map directory.join⟩ := by
  induction entries generalizing s with
  | nil => simp [subdirectories, logNames]
  | cons entry rest ih =>
      obtain ⟨name, node⟩ := entry
      rw [List.foldl_cons, ih]
      cases node with
      | directory below =>
          rw [logNames_cons_directory, subdirectories, List.map_cons, List.reverse_cons,
            List.append_assoc]
          rfl
      | file contents | link target =>
          rw [logNames_cons_leaf rfl, subdirectories, List.map_append, ← List.append_assoc]
          by_cases log : isLogName name = true <;>
            simp [Search.takeEntry, Node.isDirectory, log]

end Entries

namespace Search

/-- A directory below a root. -/
structure Directory where
  place : List Bytes
  entries : List (Bytes × Node)

namespace Directory

/-- The places of the logs below a directory. -/
def logs (d : Directory) : List (List Bytes) :=
  (logPlaces d.entries).map (d.place ++ ·)

/-- The directories in a directory. -/
def inside (d : Directory) : List Directory :=
  (subdirectories d.entries).map fun (name, below) => ⟨d.place ++ [name], below⟩

/-- The logs below a directory are those in it and those below the directories in it. -/
theorem logs_perm (d : Directory) : d.logs.Perm
    ((logNames d.entries).map (fun name => d.place ++ [name]) ++ d.inside.flatMap logs) := by
  have below : ((subdirectories d.entries).flatMap fun (name, below) =>
      (logPlaces below).map (name :: ·)).map (d.place ++ ·) = d.inside.flatMap logs := by
    rw [List.map_flatMap, inside, List.flatMap_map]
    apply List.flatMap_congr
    rintro ⟨name, below⟩ -
    simp [logs]
  have perm := (logPlaces_perm d.entries).map (d.place ++ ·)
  rw [List.map_append, List.map_map, below] at perm
  exact perm

end Directory

/-- The number of directories that are still to be opened, where these are on the list. -/
def remaining (left : List Directory) : Nat :=
  (left.map fun d => directoryCount d.entries + 1).sum

/-- Which directories below a root are on the list of a search: those that are left of the tree to
be searched, while the logs elsewhere were found. -/
structure Covers (root : Path) (entries : List (Bytes × Node)) (s : Search)
    (left : List Directory) : Prop where
  pending : s.pending = left.map fun d => root.joinAll d.place
  places : ∀ d ∈ left, (Node.directory entries).at? d.place = some (.directory d.entries)
  logs : ∃ places, s.found = places.map root.joinAll ∧
    (places ++ left.flatMap Directory.logs).Perm (logPlaces entries)

theorem covers_start (root : Path) (entries : List (Bytes × Node)) :
    Covers root entries ⟨[root], []⟩ [⟨[], entries⟩] where
  pending := rfl
  places d mem := by
    rw [List.mem_singleton.mp mem]
    rfl
  logs := ⟨[], rfl, .of_eq (by simp [Directory.logs])⟩

section Steps

variable {disk : Disk} {root : Path} {entries : List (Bytes × Node)} {s : Search}
  {d : Directory} {left : List Directory} (wellNamed : disk.top.WellNamed)
  (opened : disk.entriesOf root = .ok entries)

include wellNamed opened

/-- The directories in a directory of the tree are directories of the tree. -/
theorem at?_of_mem_inside
    (found : (Node.directory entries).at? d.place = some (.directory d.entries)) {d' : Directory}
    (mem : d' ∈ d.inside) :
    (Node.directory entries).at? d'.place = some (.directory d'.entries) := by
  obtain ⟨⟨name, below⟩, listed, rfl⟩ := List.mem_map.mp mem
  have named := wellNamed_of_entriesOf wellNamed opened d.place d.entries found
  rw [Node.at?_entry found, Node.lookup_eq_some_iff_mem named.distinct]
  exact mem_subdirectories_iff.mp listed

/-- A step opens the next directory on the list, and one less is to be opened after it. -/
theorem Covers.step (opens : disk.OpensBelow root entries)
    (covers : Covers root entries s (d :: left)) :
    ∃ s', s.step disk = .ok s' ∧ Covers root entries s' (d.inside.reverse ++ left) := by
  obtain ⟨here, others⟩ := List.forall_mem_cons.mp covers.places
  obtain ⟨places, found, logs⟩ := covers.logs
  have contents := Disk.entriesOf_joinAll wellNamed opened opens here
  have pending : (d.inside.reverse ++ left).map (fun d => root.joinAll d.place) =
      ((subdirectories d.entries).map fun (name, _) => (root.joinAll d.place).join name).reverse ++
        left.map fun d => root.joinAll d.place := by
    rw [List.map_append, List.map_reverse, Directory.inside, List.map_map]
    simp only [Function.comp_def, Path.joinAll_concat]
  have logs' : (logNames d.entries).map (root.joinAll d.place).join =
      ((logNames d.entries).map fun name => d.place ++ [name]).map root.joinAll := by
    rw [List.map_map]
    simp only [Function.comp_def, Path.joinAll_concat]
  refine ⟨⟨(d.inside.reverse ++ left).map fun d => root.joinAll d.place,
    (places ++ (logNames d.entries).map fun name => d.place ++ [name]).map root.joinAll⟩, ?_, rfl,
    ?_, _, rfl, ?_⟩
  · simp only [Search.step, covers.pending, List.map_cons, contents, Except.map, foldl_takeEntry,
      found, logs', pending, List.map_append]
  · intro d' mem
    rcases List.mem_append.mp mem with inside | mem
    · exact at?_of_mem_inside wellNamed opened here (List.mem_reverse.mp inside)
    · exact others d' mem
  · -- The logs of the opened directory are found now, or lie below the directories in it.
    have split := d.logs_perm.trans
      ((List.reverse_perm d.inside).symm.flatMap_right Directory.logs |>.append_left _)
    rw [List.flatMap_cons] at logs
    rw [List.flatMap_append, List.append_assoc, ← List.append_assoc (List.map _ _)]
    exact ((split.symm.append_right _).append_left _).trans logs

omit wellNamed opened in
theorem remaining_step (d : Directory) (left : List Directory) :
    remaining (d :: left) = remaining (d.inside.reverse ++ left) + 1 := by
  have inside : remaining d.inside = directoryCount d.entries := by
    rw [remaining, Directory.inside, List.map_map, directoryCount_eq_sum]
    rfl
  simp only [remaining, List.map_cons, List.sum_cons, List.map_append, List.sum_append,
    List.map_reverse, List.sum_reverse] at inside ⊢
  omega

/-- The search ends after as many steps as there are directories to be opened, and what it found
then are all logs, each once. -/
theorem Covers.run (opens : disk.OpensBelow root entries) (covers : Covers root entries s left) :
    ∃ places : List (List Bytes),
      s.run disk (remaining left) = .ok ⟨[], places.map root.joinAll⟩ ∧
      places.Perm (logPlaces entries) := by
  generalize number : remaining left = steps
  induction steps generalizing s left with
  | zero =>
      cases left with
      | nil =>
          obtain ⟨places, found, logs⟩ := covers.logs
          rw [List.flatMap_nil, List.append_nil] at logs
          refine ⟨places, ?_, logs⟩
          rw [Search.run, ← found, ← List.map_nil, ← covers.pending]
      | cons d left => cases (remaining_step d left).symm.trans number
  | succ steps ih =>
      cases left with
      | nil => cases number
      | cons d left =>
          obtain ⟨s', done, covers'⟩ := covers.step wellNamed opened opens
          rw [remaining_step, Nat.add_right_cancel_iff] at number
          obtain ⟨places, ended, logs⟩ := ih covers' number
          exact ⟨places, by rw [Search.run, done]; exact ended, logs⟩

end Steps

end Search

/-- The logs below a directory whose directories can all be opened.
* They are found, and opening one directory after the other finds them as well, after as many steps
  as there are directories, wherever links lead.
* Their paths are in strict order, so none is listed twice.
* They are the paths of the entries that are no directories, at places with only directories on the
  way, whose names are something and the ending.
* The reader of names takes the ending off each of them whose name is a text, so no pass over the
  directory skips such a file for its ending. -/
theorem discover_finds {σ : Type} (disk : Disk) (root : Path) (entries : List (Bytes × Node))
    (state : σ) (wellNamed : disk.top.WellNamed) (opened : disk.entriesOf root = .ok entries)
    (opens : disk.OpensBelow root entries) :
    ∃ files, onDisk (discover root : Attempt (StateT σ DiskM) (List Path)) state disk =
        ⟨.ok files, state, disk⟩ ∧
      (∃ found, Search.run disk (directoryCount entries + 1) ⟨[root], []⟩ = .ok ⟨[], found⟩ ∧
        sortBy Path.compare found = files) ∧
      files.Pairwise (fun a b => a.compare b = .lt) ∧
      (∀ path, path ∈ files ↔ ∃ above name node, path = root.joinAll (above ++ [name]) ∧
        (Node.directory entries).at? (above ++ [name]) = some node ∧ node.isDirectory = false ∧
        ∃ stem, stem ≠ [] ∧ name = stem ++ Utf8.encode ".out") ∧
      (∀ path ∈ files, ∀ name, path.fileName? = some (Utf8.encode name) →
        (∃ stem, stem ≠ [] ∧ Run.stem? name.toList = some stem) ∧
          Run.ofPath path ≠ .error .notAnOutputFile) ∧
      ∀ (pass : Pass) (onProgress : Progress → σ → σ) (onComplete : PassSummary → σ → σ)
        (heard : σ) (after : Disk) (output : Collection),
        onDisk (pass.collect (Reporter.observing onProgress onComplete) root) state disk =
          ⟨.ok output, heard, after⟩ →
        ∀ file ∈ output.skipped, file.cause = .unparseableName .notAnOutputFile →
          ∀ name, file.path.fileName? ≠ some (Utf8.encode name) := by
  have named := wellNamed_of_entriesOf wellNamed opened
  have discovered : onDisk (discover root : Attempt (StateT σ DiskM) (List Path)) state disk =
      ⟨.ok (sortBy Path.compare ((logPlaces entries).map root.joinAll)), state, disk⟩ := by
    rw [Calibration.onDisk_discover, logsOn_of_opensBelow wellNamed opened opens]
  have ending : "." ++ logExtension = ".out" := by decide
  have spelled : ∀ path ∈ sortBy Path.compare ((logPlaces entries).map root.joinAll), ∀ name,
      path.fileName? = some (Utf8.encode name) → isLogName (Utf8.encode name) = true := by
    intro path mem name last
    obtain ⟨place, listed, rfl⟩ := List.mem_map.mp (mem_sortBy.mp mem)
    obtain ⟨name', last', log⟩ := fileName?_of_mem_logPlaces root named listed
    rwa [Option.some.inj (last.symm.trans last')]
  refine ⟨_, discovered, ?_, pairwise_sortBy_logPlaces wellNamed opened, ?_, ?_, ?_⟩
  · obtain ⟨places, ended, perm⟩ :=
      (Search.covers_start root entries).run wellNamed opened opens
    refine ⟨_, ended, ?_⟩
    exact (sortBy_eq_of_perm (perm.map root.joinAll).symm
      (eq_of_compare_map_logPlaces wellNamed opened)).symm
  · intro path
    simp only [mem_sortBy, List.mem_map, mem_logPlaces_iff named, IsLogAt, isLogName_iff, ending]
    constructor
    · rintro ⟨-, ⟨above, name, node, rfl, found, leaf, log⟩, rfl⟩
      exact ⟨above, name, node, rfl, found, leaf, log⟩
    · rintro ⟨above, name, node, rfl, found, leaf, log⟩
      exact ⟨_, ⟨above, name, node, rfl, found, leaf, log⟩, rfl⟩
  · intro path mem name last
    have log := spelled path mem name last
    exact ⟨Run.isLogName_encode_iff.mp log, Run.ofPath_ne_notAnOutputFile last log⟩
  · intro pass onProgress onComplete heard after output done file mem cause name last
    rw [Pass.collect, onDisk_bind, discovered, Ended.andThen_ok] at done
    obtain ⟨-, outcomes, found, rfl⟩ := Pass.results_of_onDisk_collectFiles done
    obtain ⟨listed, rejected⟩ := Pass.ofPath_of_mem_skipped found mem cause
    exact Run.ofPath_ne_notAnOutputFile last (spelled _ listed name last) rejected

section Sample

/-- The entries of a directory that is called like a log: a log and a link back to the root. -/
def innerEntries : List (Bytes × Node) :=
  [(Utf8.encode "a..out", .file []), (Utf8.encode "up.out", .link (Path.ofString ".."))]

/-- Entries with this directory among them. -/
def outerEntries : List (Bytes × Node) :=
  [(Utf8.encode ".out", .file []), (Utf8.encode "x.out", .directory innerEntries)]

/-- A disk with these entries in one directory. -/
def nestedDisk : Disk :=
  ⟨.directory [(Utf8.encode "r", .directory outerEntries)]⟩

theorem wellNamed_innerEntries : (Node.directory innerEntries).WellNamed :=
  Node.wellNamed_directory (by decide +kernel) (by simp [innerEntries])

theorem wellNamed_outerEntries : (Node.directory outerEntries).WellNamed :=
  Node.wellNamed_directory (by decide +kernel) (by simp [outerEntries, wellNamed_innerEntries])

theorem wellNamed_nestedDisk : nestedDisk.top.WellNamed :=
  Node.wellNamed_directory (by decide +kernel) (by simp [wellNamed_outerEntries])

theorem entriesOf_nestedDisk : nestedDisk.entriesOf (Path.ofString "r") = .ok outerEntries :=
  rfl

theorem opensBelow_nestedDisk : nestedDisk.OpensBelow (Path.ofString "r") outerEntries := by
  have inner : nestedDisk.entriesOf ((Path.ofString "r").join (Utf8.encode "x.out")) =
      .ok innerEntries := rfl
  refine Disk.opensBelow_of_mem wellNamed_outerEntries.named ⟨_, entriesOf_nestedDisk⟩ ?_
  intro name below mem
  obtain ⟨rfl, rfl⟩ : name = Utf8.encode "x.out" ∧ below = innerEntries := by
    simpa [outerEntries] using mem
  refine Disk.opensBelow_of_mem wellNamed_innerEntries.named ⟨_, inner⟩ ?_
  intro name below mem
  simp [innerEntries] at mem

end Sample

/-- A directory that is called like a log is opened and not listed, a link back to the root is
listed and not followed, and a name with more dots than tokens is still that of a log. -/
theorem discover_finds_nested :
    let root := Path.ofString "r"
    ∃ files, onDisk (discover root : Attempt (StateT Unit DiskM) (List Path)) () nestedDisk =
        ⟨.ok files, (), nestedDisk⟩ ∧
      (∃ found, Search.run nestedDisk 2 ⟨[root], []⟩ = .ok ⟨[], found⟩) ∧
      Path.ofString "r/x.out" ∉ files ∧ Path.ofString "r/x.out/up.out" ∈ files ∧
      Path.ofString "r/x.out/a..out" ∈ files ∧
      Run.ofPath (Path.ofString "r/x.out/a..out") ≠ .error .notAnOutputFile := by
  intro root
  obtain ⟨files, discovered, ⟨found, ended, -⟩, -, members, spelled, -⟩ := discover_finds nestedDisk
    root outerEntries () wellNamed_nestedDisk entriesOf_nestedDisk opensBelow_nestedDisk
  have log : Path.ofString "r/x.out/a..out" ∈ files := (members _).mpr
    ⟨[Utf8.encode "x.out"], Utf8.encode "a..out", .file [], by decide +kernel, rfl, rfl,
      Utf8.encode "a.", by decide +kernel, by decide +kernel⟩
  have link : Path.ofString "r/x.out/up.out" ∈ files := (members _).mpr
    ⟨[Utf8.encode "x.out"], Utf8.encode "up.out", .link (Path.ofString ".."), by decide +kernel, rfl,
      rfl, Utf8.encode "up", by decide +kernel, by decide +kernel⟩
  have two : directoryCount outerEntries + 1 = 2 := by
    simp [directoryCount, outerEntries, innerEntries]
  refine ⟨files, discovered, ⟨found, two ▸ ended⟩, ?_, link, log,
    (spelled _ log "a..out" (by decide +kernel)).2⟩
  intro mem
  obtain ⟨above, name, node, same, inside, leaf, -⟩ := (members _).mp mem
  have joined : Path.ofString "r/x.out" = root.joinAll [Utf8.encode "x.out"] := by decide +kernel
  have place : [Utf8.encode "x.out"] = above ++ [name] :=
    Path.eq_of_compare_joinAll (by decide +kernel) (wellNamed_outerEntries.isEntryName inside)
      (by rw [← joined, same]; exact Std.ReflCmp.compare_self)
  have directory : (Node.directory outerEntries).at? [Utf8.encode "x.out"] =
      some (.directory innerEntries) := rfl
  rw [← place, directory] at inside
  cases inside
  cases leaf

end SpeedupStudy
