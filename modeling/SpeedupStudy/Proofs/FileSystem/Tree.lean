/-
# Growing trees

A program of the study never removes anything. It makes files and directories where nothing was and
replaces the contents of files, so whatever was at a place stays there as the same kind of node. A
tree that only grew in this way is the same to every walk that led somewhere before.
-/

import Mathlib
import SpeedupStudy.FileSystem.Walk

namespace SpeedupStudy

theorem lookup_setEntry (name other : Bytes) (node : Node) (entries : List (Bytes × Node)) :
    (setEntry name node entries).lookup other =
      if other = name then some node else entries.lookup other := by
  induction entries with
  | nil =>
      by_cases same : other = name
      · simp [setEntry, same]
      · simp [setEntry, same, List.lookup_cons, beq_eq_false_iff_ne.mpr same]
  | cons entry rest ih =>
      obtain ⟨key, old⟩ := entry
      by_cases found : key = name
      · subst found
        by_cases same : other = key
        · simp [setEntry, same]
        · simp [setEntry, same, List.lookup_cons, beq_eq_false_iff_ne.mpr same]
      · by_cases here : other = key
        · subst here
          simp [setEntry, found]
        · simp [setEntry, found, List.lookup_cons, beq_eq_false_iff_ne.mpr here, ih]

namespace Node

theorem at?_append (place rest : List Bytes) (tree : Node) :
    tree.at? (place ++ rest) = (tree.at? place).bind (at? rest) := by
  induction place generalizing tree with
  | nil => rfl
  | cons name place ih =>
      rw [List.cons_append, at?, at?]
      cases tree.child? name with
      | none => rfl
      | some child => exact ih child

/-- An entry of a directory is at the place of the directory with its name after it. -/
theorem at?_entry {tree : Node} {place : List Bytes} {entries : List (Bytes × Node)}
    (directory : tree.at? place = some (.directory entries)) (name : Bytes) :
    tree.at? (place ++ [name]) = entries.lookup name := by
  rw [at?_append, directory, Option.bind_some, at?]
  exact Option.bind_fun_some _

/-- Something lies below a directory only. -/
theorem exists_directory_of_at?_append {tree node : Node} {place : List Bytes} {name : Bytes}
    (found : tree.at? (place ++ [name]) = some node) :
    ∃ entries, tree.at? place = some (.directory entries) := by
  rw [at?_append] at found
  cases here : tree.at? place with
  | none => simp [here] at found
  | some parent =>
      cases parent with
      | directory entries => exact ⟨entries, rfl⟩
      | file contents => simp [here, at?, child?] at found
      | link target => simp [here, at?, child?] at found

/-- What is left of a node at its place: a link as it was, a directory, and a file with the same
contents unless they were replaced. -/
def Survives (replaced : Prop) : Node → Option Node → Prop
  | file contents, after => ∃ now, after = some (file now) ∧ (¬ replaced → now = contents)
  | link target, after => after = some (link target)
  | directory _, after => ∃ entries, after = some (directory entries)

theorem Survives.refl (replaced : Prop) (node : Node) : node.Survives replaced (some node) := by
  cases node with
  | file contents => exact ⟨contents, rfl, fun _ => rfl⟩
  | link target => rfl
  | directory entries => exact ⟨entries, rfl⟩

theorem Survives.mono {replaced replaced' : Prop} {node : Node} {after : Option Node}
    (more : replaced → replaced') (survives : node.Survives replaced after) :
    node.Survives replaced' after := by
  cases node with
  | file contents =>
      obtain ⟨now, found, kept⟩ := survives
      exact ⟨now, found, fun not => kept (not ∘ more)⟩
  | link target => exact survives
  | directory entries => exact survives

/-- Everything in one tree is left in another, where only these files have other contents. -/
def Grows (before after : Node) (written : List (List Bytes)) : Prop :=
  ∀ place node, before.at? place = some node → node.Survives (place ∈ written) (after.at? place)

theorem Grows.refl (tree : Node) (written : List (List Bytes)) : Grows tree tree written := by
  intro place node found
  rw [found]
  exact .refl _ node

theorem Grows.trans {first second third : Node} {written written' : List (List Bytes)}
    (grows : Grows first second written) (further : Grows second third written') :
    Grows first third (written ++ written') := by
  intro place node found
  have before := grows place node found
  cases node with
  | file contents =>
      obtain ⟨between, found', kept⟩ := before
      obtain ⟨now, found'', kept'⟩ := further place _ found'
      refine ⟨now, found'', fun untouched => ?_⟩
      rw [List.mem_append, not_or] at untouched
      rw [kept' untouched.2, kept untouched.1]
  | link target => exact further place _ before
  | directory entries =>
      obtain ⟨between, found'⟩ := before
      exact further place _ found'

/-- A file that was made where nothing was replaced no contents. -/
theorem Grows.of_absent {before after : Node} {place : List Bytes}
    (grows : Grows before after [place]) (absent : before.at? place = none) :
    Grows before after [] := by
  intro other node found
  apply (grows other node found).mono
  intro written
  rw [List.mem_singleton.mp written, absent] at found
  cases found

theorem Grows.directory {before after : Node} {written : List (List Bytes)} {place : List Bytes}
    {entries : List (Bytes × Node)} (grows : Grows before after written)
    (directory : before.at? place = some (.directory entries)) :
    ∃ entries', after.at? place = some (.directory entries') :=
  grows place _ directory

theorem Grows.file {before after : Node} {written : List (List Bytes)} {place : List Bytes}
    {contents : Bytes} (grows : Grows before after written)
    (file : before.at? place = some (.file contents)) (kept : place ∉ written) :
    after.at? place = some (.file contents) := by
  obtain ⟨now, found, same⟩ := grows place _ file
  rw [found, same kept]

/-- A tree whose entry of some name was replaced by one that is left of it. -/
theorem grows_setEntry {entries : List (Bytes × Node)} {name : Bytes} {new : Node}
    {written : List (List Bytes)}
    (left : ∀ old, entries.lookup name = some old → Grows old new written) :
    Grows (.directory entries) (.directory (setEntry name new entries))
      (written.map (name :: ·)) := by
  intro place node found
  cases place with
  | nil =>
      cases found
      exact ⟨_, rfl⟩
  | cons first rest =>
      rw [at?, child?] at found ⊢
      rw [lookup_setEntry]
      by_cases same : first = name
      · subst same
        rw [if_pos rfl, Option.bind_some]
        cases old : entries.lookup first with
        | none => simp [old] at found
        | some old' =>
            rw [old, Option.bind_some] at found
            exact (left old' old rest node found).mono fun mem => List.mem_map_of_mem mem
      · rw [if_neg same, found]
        exact .refl _ node

/-- A node is put below an entry of a directory by putting it below that entry. -/
theorem put_cons {entries : List (Bytes × Node)} {name : Bytes} {old : Node}
    (entry : entries.lookup name = some old) (rest : List Bytes) (new : Node) :
    (directory entries).put (name :: rest) new =
      .directory (setEntry name (old.put rest new) entries) := by
  cases rest with
  | nil => cases old <;> rfl
  | cons second others =>
      rw [put.eq_def]
      simp only [entry]

/-- A tree grows when something is put where nothing was, or a file where a file was. -/
theorem grows_put {tree new : Node} {place : List Bytes}
    (fits : ∀ old, tree.at? place = some old →
      ∃ contents contents', old = .file contents ∧ new = .file contents') :
    Grows tree (tree.put place new) [place] := by
  induction place generalizing tree with
  | nil =>
      obtain ⟨contents, contents', rfl, rfl⟩ := fits tree rfl
      intro place node found
      cases place with
      | nil =>
          cases found
          exact ⟨contents', rfl, fun kept => absurd List.mem_cons_self kept⟩
      | cons name rest => cases found
  | cons name rest ih =>
      have below : ∀ entries, tree = .directory entries → ∀ old, entries.lookup name = some old →
          Grows old (old.put rest new) [rest] := by
        intro entries directory old entry
        refine ih fun node found => fits node ?_
        rw [directory, at?, child?, entry]
        exact found
      cases tree with
      | file contents => cases rest <;> exact Grows.refl _ _
      | link target => cases rest <;> exact Grows.refl _ _
      | directory entries =>
          cases entry : entries.lookup name with
          | some old =>
              rw [put_cons entry]
              refine (grows_setEntry ?_ : Grows _ _ ([rest].map (name :: ·)))
              intro old' entry'
              rw [entry, Option.some.injEq] at entry'
              rw [← entry']
              exact below entries rfl old entry
          | none =>
              cases rest with
              | nil =>
                  refine (grows_setEntry ?_ : Grows _ _ ([[]].map (name :: ·)))
                  intro old entry'
                  rw [entry] at entry'
                  cases entry'
              | cons second others =>
                  rw [put.eq_def]
                  simp only [entry]
                  exact Grows.refl _ _

/-- What is put under a name into a directory is there. -/
theorem at?_put {tree : Node} {place : List Bytes} {entries : List (Bytes × Node)}
    (directory : tree.at? place = some (.directory entries)) (name : Bytes) (new : Node) :
    (tree.put (place ++ [name]) new).at? (place ++ [name]) = some new := by
  induction place generalizing tree with
  | nil =>
      cases directory
      rw [List.nil_append, put, at?, child?, lookup_setEntry, if_pos rfl]
      rfl
  | cons first rest ih =>
      cases tree with
      | file contents => cases directory
      | link target => cases directory
      | directory others =>
          rw [at?, child?] at directory
          cases entry : others.lookup first with
          | none => simp [entry] at directory
          | some old =>
              rw [entry, Option.bind_some] at directory
              rw [List.cons_append, put_cons entry, at?, child?, lookup_setEntry, if_pos rfl]
              exact ih directory

end Node

end SpeedupStudy
