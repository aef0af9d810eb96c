/-
# Walks in growing trees

A walk ends at what the tree has there, or at a name that is free in a directory. In a tree that
grew it ends at the same place: what a walk passes through is never removed, and a link leads where
it led.
-/

import SpeedupStudy.Proofs.FileSystem.Tree

namespace SpeedupStudy

/-- The place that a walk ended at, or where it found a name free. -/
def Place.location : Place → List Bytes
  | .present place _ => place
  | .absent directory name => directory ++ [name]

namespace Node

/-- Whether there is a directory at a place. -/
def HasDirectory (top : Node) (place : List Bytes) : Prop :=
  ∃ entries, top.at? place = some (directory entries)

theorem HasDirectory.dropLast {top : Node} {place : List Bytes} (found : top.HasDirectory place) :
    top.HasDirectory place.dropLast := by
  rcases List.eq_nil_or_concat place with rfl | ⟨above, name, rfl⟩
  · exact found
  · obtain ⟨entries, found⟩ := found
    rw [List.concat_eq_append] at found ⊢
    rw [List.dropLast_concat]
    exact exists_directory_of_at?_append found

/-- What is put in place of a file is there, as the file is not the top of its tree. -/
theorem at?_put_file {top : Node} {place : List Bytes} {contents : Bytes}
    (root : top.HasDirectory []) (file : top.at? place = some (.file contents)) (new : Node) :
    (top.put place new).at? place = some new := by
  rcases List.eq_nil_or_concat place with rfl | ⟨above, name, rfl⟩
  · obtain ⟨entries, directory⟩ := root
    cases directory.symm.trans file
  · rw [List.concat_eq_append] at file ⊢
    obtain ⟨entries, directory⟩ := exists_directory_of_at?_append file
    exact at?_put directory name new

theorem hasDirectory_nil_of_hasDirectory {top : Node} {place : List Bytes}
    (found : top.HasDirectory place) : top.HasDirectory [] := by
  cases place with
  | nil => exact found
  | cons name rest =>
      obtain ⟨entries, found⟩ := found
      cases top with
      | directory entries => exact ⟨entries, rfl⟩
      | file contents => cases found
      | link target => cases found

/-- What a walk says about the tree: what is at the place where it ended, or the directory in which
it found a name free. That is no directory only where the tree is none. -/
def Tells (top : Node) : Place → Prop
  | .present place node => top.at? place = some node
  | .absent above name =>
    (top.HasDirectory [] → top.HasDirectory above) ∧ top.at? (above ++ [name]) = none

section Walks

variable {top : Node} {making : Bool}
  {follow : List Bytes → List (Option Component) → Except IoError Place}
  {here : List Bytes} {steps : List (Option Component)} {place : Place}

/-- All that a walk can find under a name: nothing, a file, a directory that it enters, or a link
that it follows. Only the last two lead on. -/
theorem found_of_walkVia_name {name : Bytes} {rest : List (Option Component)}
    (walked : walkVia top making follow here (some (.name name) :: rest) = .ok place) :
    (making = true → endInSlash rest = false) ∧ name.length ≤ Path.maxNameLength ∧
      ((top.at? (here ++ [name]) = none ∧ rest = [] ∧ place = .absent here name) ∨
        (∃ contents, top.at? (here ++ [name]) = some (file contents) ∧ rest = [] ∧
          place = .present (here ++ [name]) (file contents)) ∨
        (top.HasDirectory (here ++ [name]) ∧
          walkVia top making follow (here ++ [name]) rest = .ok place) ∨
        ∃ target, top.at? (here ++ [name]) = some (link target) ∧
          follow here (target.steps ++ rest) = .ok place) := by
  rw [walkVia] at walked
  by_cases slashes : (making && endInSlash rest) = true
  · simp [slashes] at walked
  · rw [if_neg slashes] at walked
    by_cases long : Path.maxNameLength < name.length
    · simp [long] at walked
    · rw [if_neg long] at walked
      refine ⟨by simpa using slashes, by omega, ?_⟩
      cases found : top.at? (here ++ [name]) with
      | none => cases rest <;> simp_all
      | some node => cases node <;> cases rest <;> simp_all [HasDirectory]

theorem tells_walkVia (directory : top.HasDirectory [] → top.HasDirectory here)
    (followed : ∀ here steps place, (top.HasDirectory [] → top.HasDirectory here) →
      follow here steps = .ok place → top.Tells place)
    (walked : walkVia top making follow here steps = .ok place) : top.Tells place := by
  induction steps generalizing here with
  | nil =>
      rw [walkVia] at walked
      cases found : top.at? here with
      | none => simp [found] at walked
      | some node =>
          simp only [found, Except.ok.injEq] at walked
          rw [← walked]
          exact found
  | cons step rest ih =>
      cases step with
      | none => exact ih directory walked
      | some component =>
          cases component with
          | root => exact ih id walked
          | here => exact ih directory walked
          | parent => exact ih (fun root => (directory root).dropLast) walked
          | name name =>
              obtain ⟨-, -, ⟨free, -, rfl⟩ | ⟨contents, found, -, rfl⟩ | ⟨found, onward⟩ |
                ⟨target, -, onward⟩⟩ := found_of_walkVia_name walked
              · exact ⟨directory, free⟩
              · exact found
              · exact ih (fun _ => found) onward
              · exact followed _ _ _ directory onward

/-- A walk ends at what the tree has there. -/
theorem tells_walk {links : Nat} (directory : top.HasDirectory [] → top.HasDirectory here)
    (walked : walk top making links here steps = .ok place) : top.Tells place := by
  induction links generalizing here steps place with
  | zero =>
      rw [walk] at walked
      refine tells_walkVia directory ?_ walked
      intro _ _ _ _ failed
      cases failed
  | succ links ih => exact tells_walkVia directory (fun _ _ _ => ih) walked

/-- Steps that lead to a directory lead to one of the tree. -/
theorem at?_of_directoryAt {entries : List (Bytes × Node)} {there : List Bytes}
    (found : top.directoryAt steps = .ok (there, entries)) :
    top.at? there = some (directory entries) := by
  unfold directoryAt at found
  cases walked : walk top false maxLinks [] steps with
  | error e => simp [walked] at found
  | ok place =>
      have tells := tells_walk id walked
      cases place with
      | absent above name => simp [walked] at found
      | present here node =>
          cases node with
          | file contents => simp [walked] at found
          | link target => simp [walked] at found
          | directory others =>
              simp only [walked, Except.ok.injEq, Prod.mk.injEq] at found
              obtain ⟨rfl, rfl⟩ := found
              exact tells

end Walks

section Growth

variable {before after : Node} {written : List (List Bytes)} {making making' : Bool}

/-- What a walk that ended at a place ends at in a grown tree. Where a name was free there must be a
file now. -/
def Now (after : Node) (place : Place) (node : Node) : Prop :=
  after.at? place.location = some node ∧
    ∀ above name, place = .absent above name → ∃ contents, node = file contents

theorem walkVia_of_grows
    {follow follow' : List Bytes → List (Option Component) → Except IoError Place}
    {here : List Bytes} {steps : List (Option Component)} {place : Place} {node : Node}
    (grows : Grows before after written) (weaker : making' = true → making = true)
    (followed : ∀ here steps, follow here steps = .ok place →
      follow' here steps = .ok (.present place.location node))
    (now : after.Now place node)
    (walked : walkVia before making follow here steps = .ok place) :
    walkVia after making' follow' here steps = .ok (.present place.location node) := by
  induction steps generalizing here with
  | nil =>
      rw [walkVia] at walked
      cases found : before.at? here with
      | none => simp [found] at walked
      | some old =>
          simp only [found, Except.ok.injEq] at walked
          subst walked
          have there : after.at? here = some node := now.1
          simp [walkVia, there, Place.location]
  | cons step rest ih =>
      cases step with
      | none => exact ih walked
      | some component =>
          cases component with
          | root => exact ih walked
          | here => exact ih walked
          | parent => exact ih walked
          | name name =>
              obtain ⟨opened, short, found⟩ := found_of_walkVia_name walked
              have slashes : ¬ (making' && endInSlash rest) = true := by
                rw [Bool.and_eq_true]
                rintro ⟨making, slashes⟩
                exact absurd (slashes.symm.trans (opened (weaker making))) (by decide)
              rw [walkVia, if_neg slashes, if_neg (by omega)]
              rcases found with ⟨-, rfl, rfl⟩ | ⟨contents, found, rfl, rfl⟩ | ⟨found, onward⟩ |
                ⟨target, found, onward⟩
              · obtain ⟨contents, rfl⟩ := now.2 _ _ rfl
                have there : after.at? (here ++ [name]) = some (file contents) := now.1
                simp [there, Place.location]
              · obtain ⟨contents', there, -⟩ := grows _ _ found
                obtain rfl : file contents' = node := Option.some.inj (there.symm.trans now.1)
                simp [there, Place.location]
              · obtain ⟨entries, found⟩ := found
                obtain ⟨entries', there⟩ := grows.directory found
                simp only [there]
                exact ih onward
              · have there : after.at? (here ++ [name]) = some (link target) := grows _ _ found
                simp only [there]
                exact followed _ _ onward

/-- A walk that led somewhere leads there in a grown tree. -/
theorem walk_of_grows {links : Nat} {here : List Bytes} {steps : List (Option Component)}
    {place : Place} {node : Node} (grows : Grows before after written)
    (weaker : making' = true → making = true) (now : after.Now place node)
    (walked : walk before making links here steps = .ok place) :
    walk after making' links here steps = .ok (.present place.location node) := by
  induction links generalizing here steps with
  | zero =>
      rw [walk] at walked ⊢
      refine walkVia_of_grows grows weaker ?_ now walked
      intro _ _ failed
      cases failed
  | succ links ih => exact walkVia_of_grows grows weaker (fun _ _ => ih) now walked

/-- A path that led somewhere leads there in a grown tree. -/
theorem resolve_of_grows {path : Path} {place : Place} {node : Node}
    (grows : Grows before after written) (weaker : making' = true → making = true)
    (now : after.Now place node) (resolved : resolve before making path = .ok place) :
    resolve after making' path = .ok (.present place.location node) := by
  unfold resolve at resolved ⊢
  cases problem : path.problem? with
  | some e => simp [problem] at resolved
  | none =>
      simp only [problem] at resolved ⊢
      exact walk_of_grows grows weaker now resolved

/-- A path leads to what the tree has there. -/
theorem tells_resolve {top : Node} {path : Path} {place : Place}
    (resolved : resolve top making path = .ok place) : top.Tells place := by
  unfold resolve at resolved
  cases problem : path.problem? with
  | some e => simp [problem] at resolved
  | none =>
      simp only [problem] at resolved
      exact tells_walk id resolved

end Growth

end Node

end SpeedupStudy
