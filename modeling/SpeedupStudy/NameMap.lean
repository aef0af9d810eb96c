/-
# Values under names

A catalog assigns values to names and lists them by name. The entries are kept in strictly
increasing order, so two maps with the same entries are equal, and what a map holds does not
depend on the order in which it was filled.
-/

namespace SpeedupStudy

universe u

/-- A finite map from names, listed by name. -/
structure NameMap (α : Type u) where
  entries : List (String × α)
  sorted : entries.Pairwise (·.1 < ·.1) := by simp

namespace NameMap

variable {α : Type u}

@[ext]
theorem ext {m n : NameMap α} (h : m.entries = n.entries) : m = n := by
  cases m; cases n; cases h; rfl

instance [DecidableEq α] : DecidableEq (NameMap α) := fun m n =>
  decidable_of_iff (m.entries = n.entries) ⟨ext, fun h => h ▸ rfl⟩

/-- The map without entries. -/
def empty : NameMap α :=
  ⟨[], List.Pairwise.nil⟩

instance : Inhabited (NameMap α) :=
  ⟨empty⟩

/-- Put a value under a name into a list of entries, in place of the value that is there. -/
def insertEntry (name : String) (value : α) : List (String × α) → List (String × α)
  | [] => [(name, value)]
  | (key, old) :: rest =>
    if name < key then (name, value) :: (key, old) :: rest
    else if name = key then (name, value) :: rest
    else (key, old) :: insertEntry name value rest

theorem mem_insertEntry {name : String} {value : α} {entries : List (String × α)}
    {entry : String × α} (h : entry ∈ insertEntry name value entries) :
    entry = (name, value) ∨ entry ∈ entries := by
  induction entries with
  | nil => simpa [insertEntry] using h
  | cons first rest ih =>
      unfold insertEntry at h
      split at h
      · simpa using h
      · split at h
        · rcases List.mem_cons.mp h with h | h
          · exact .inl h
          · exact .inr (List.mem_cons_of_mem _ h)
        · rcases List.mem_cons.mp h with h | h
          · exact .inr (h ▸ List.mem_cons_self)
          · exact (ih h).imp_right (List.mem_cons_of_mem _)

theorem pairwise_insertEntry {name : String} {value : α} {entries : List (String × α)}
    (h : entries.Pairwise (·.1 < ·.1)) :
    (insertEntry name value entries).Pairwise (·.1 < ·.1) := by
  induction entries with
  | nil => simp [insertEntry]
  | cons first rest ih =>
      obtain ⟨before, later⟩ := List.pairwise_cons.mp h
      unfold insertEntry
      split
      · next smaller =>
          refine List.pairwise_cons.mpr ⟨fun entry mem => ?_, h⟩
          rcases List.mem_cons.mp mem with rfl | mem
          · exact smaller
          · exact String.lt_trans smaller (before entry mem)
      · next notSmaller =>
          split
          · next same =>
              subst same
              exact List.pairwise_cons.mpr ⟨before, later⟩
          · next different =>
              refine List.pairwise_cons.mpr ⟨fun entry mem => ?_, ih later⟩
              rcases mem_insertEntry mem with rfl | mem
              · by_cases above : first.1 < name
                · exact above
                · exact absurd (String.le_antisymm above notSmaller) different
              · exact before entry mem

/-- Put a value under a name, in place of the value that is there. -/
def insert (m : NameMap α) (name : String) (value : α) : NameMap α :=
  ⟨insertEntry name value m.entries, pairwise_insertEntry m.sorted⟩

/-- The map filled from a list; of several values for one name the last one stays. -/
def ofList (entries : List (String × α)) : NameMap α :=
  entries.foldl (fun m entry => m.insert entry.1 entry.2) empty

/-- The map with all entries of a list put in. -/
def insertAll (m : NameMap α) (entries : List (String × α)) : NameMap α :=
  entries.foldl (fun m entry => m.insert entry.1 entry.2) m

/-- The value under a name. -/
def get? (m : NameMap α) (name : String) : Option α :=
  m.entries.lookup name

/-- Whether there is a value under a name. -/
def contains (m : NameMap α) (name : String) : Bool :=
  (m.get? name).isSome

/-- The number of names. -/
def size (m : NameMap α) : Nat :=
  m.entries.length

/-- The names in increasing order. -/
def names (m : NameMap α) : List String :=
  m.entries.map (·.1)

end NameMap

end SpeedupStudy
