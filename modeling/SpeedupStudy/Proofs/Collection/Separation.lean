/-
# Separating the first row of each key

The separation of rows only compares a row with the last one it kept. On rows in the order of their
keys this is enough: rows of one key are neighbours, so the first of them is kept and all others are
repeated. Together the two parts hold every row as often as it was there.
-/

import SpeedupStudy.Collection.Pass
import SpeedupStudy.Proofs.Run.Order

namespace SpeedupStudy.Pass

/-- Rows in the order of their keys, where rows of one key may repeat. -/
def InKeyOrder (rows : List Row) : Prop :=
  rows.Pairwise fun a b => (Run.compareKey a.run b.run).isLE

/-- Rows in the order of their keys, one of each key. -/
def InStrictKeyOrder (rows : List Row) : Prop :=
  rows.Pairwise fun a b => Run.compareKey a.run b.run = .lt

/-- The rows of a key. -/
def rowsOfKey (key : Run.Key) (rows : List Row) : List Row :=
  rows.filter fun row => row.run.key = key

theorem rowsOfKey_cons_self (row : Row) (rest : List Row) :
    rowsOfKey row.run.key (row :: rest) = row :: rowsOfKey row.run.key rest := by
  simp [rowsOfKey]

theorem rowsOfKey_cons_of_ne {key : Run.Key} {row : Row} (other : row.run.key ≠ key)
    (rest : List Row) : rowsOfKey key (row :: rest) = rowsOfKey key rest := by
  simp [rowsOfKey, other]

/-- Of two neighbours in the order of keys the first is strictly smaller, unless they have one
key. -/
theorem compareKey_eq_lt {first second : Row} {rest : List Row}
    (ordered : InKeyOrder (first :: second :: rest)) (other : first.run.key ≠ second.run.key) :
    Run.compareKey first.run second.run = .lt := by
  have bound := (List.pairwise_cons.mp ordered).1 second List.mem_cons_self
  cases order : Run.compareKey first.run second.run with
  | lt => rfl
  | eq => exact absurd (Run.compareKey_eq_eq_iff.mp order) other
  | gt =>
      rw [order] at bound
      cases bound

/-- After a row of another key, no row in the order of keys has the key of a row before it. -/
theorem rowsOfKey_eq_nil {first second : Row} {rest : List Row}
    (ordered : InKeyOrder (first :: second :: rest)) (other : first.run.key ≠ second.run.key) :
    rowsOfKey first.run.key (second :: rest) = [] := by
  have before := compareKey_eq_lt ordered other
  have ordered := (List.pairwise_cons.mp ordered).2
  apply List.filter_eq_nil_iff.mpr
  intro row mem
  have later : Run.compareKey first.run row.run = .lt := by
    rcases List.mem_cons.mp mem with rfl | mem
    · exact before
    · exact Std.TransCmp.lt_of_lt_of_isLE before ((List.pairwise_cons.mp ordered).1 row mem)
  intro same
  have equal := Run.compareKey_eq_eq_iff.mpr (of_decide_eq_true same).symm
  rw [later] at equal
  cases equal

/-- A row that repeats the last kept one is set aside. -/
theorem separate_cons_of_eq {kept row : Row} (same : kept.run.key = row.run.key)
    (rest : List Row) :
    separate (some kept) (row :: rest) =
      ((separate (some kept) rest).1, row :: (separate (some kept) rest).2) := by
  have repeats : (some kept).any (fun kept => kept.run.sameKey row.run) = true :=
    Run.sameKey_iff.mpr same
  rw [separate, if_pos repeats]

/-- A row that does not repeat the last kept one is kept. -/
theorem separate_cons_of_ne {kept row : Row} (other : kept.run.key ≠ row.run.key)
    (rest : List Row) :
    separate (some kept) (row :: rest) =
      (row :: (separate (some row) rest).1, (separate (some row) rest).2) := by
  have new : ¬ (some kept).any (fun kept => kept.run.sameKey row.run) = true :=
    fun repeats => other (Run.sameKey_iff.mp repeats)
  rw [separate, if_neg new]

/-- Separating rows loses none and repeats none. -/
theorem separate_perm (kept : Option Row) (rows : List Row) :
    ((separate kept rows).1 ++ (separate kept rows).2).Perm rows := by
  induction rows generalizing kept with
  | nil => simp [separate]
  | cons row rest ih =>
      by_cases repeats : kept.any (fun kept => kept.run.sameKey row.run) = true
      · rw [separate, if_pos repeats]
        exact List.perm_middle.trans ((ih kept).cons row)
      · rw [separate, if_neg repeats]
        exact (ih (some row)).cons row

/-- What the separation does to the rows of one key after a kept row: with the kept row in front,
the first of them is kept and the others are repeated. -/
theorem rowsOfKey_separate_some (key : Run.Key) {kept : Row} {rows : List Row}
    (ordered : InKeyOrder (kept :: rows)) :
    rowsOfKey key (kept :: (separate (some kept) rows).1) =
        (rowsOfKey key (kept :: rows)).take 1 ∧
      rowsOfKey key (separate (some kept) rows).2 = (rowsOfKey key (kept :: rows)).drop 1 := by
  induction rows generalizing kept with
  | nil => by_cases same : kept.run.key = key <;> simp [separate, rowsOfKey, same]
  | cons row rest ih =>
      by_cases repeats : kept.run.key = row.run.key
      · have around : InKeyOrder (kept :: rest) :=
          ordered.sublist ((List.sublist_cons_self row rest).cons_cons kept)
        obtain ⟨unique, repeated⟩ := ih around
        rw [separate_cons_of_eq repeats]
        by_cases same : row.run.key = key
        · subst same
          have first : ∀ rest, rowsOfKey row.run.key (kept :: rest) =
              kept :: rowsOfKey row.run.key rest := by
            intro rest
            rw [← repeats, rowsOfKey_cons_self]
          rw [first, first] at unique
          rw [first] at repeated
          rw [first, first, rowsOfKey_cons_self, rowsOfKey_cons_self, repeated, unique]
          exact ⟨rfl, rfl⟩
        · have other : kept.run.key ≠ key := repeats ▸ same
          simp only [rowsOfKey_cons_of_ne other] at unique repeated
          simp only [rowsOfKey_cons_of_ne other, rowsOfKey_cons_of_ne same]
          exact ⟨unique, repeated⟩
      · obtain ⟨unique, repeated⟩ := ih (List.pairwise_cons.mp ordered).2
        rw [separate_cons_of_ne repeats]
        by_cases same : kept.run.key = key
        · subst same
          have gone := rowsOfKey_eq_nil ordered repeats
          rw [gone] at unique repeated
          rw [rowsOfKey_cons_self, rowsOfKey_cons_self, gone, repeated, unique]
          simp
        · rw [rowsOfKey_cons_of_ne same, rowsOfKey_cons_of_ne same]
          exact ⟨unique, repeated⟩

/-- The first row of each key is kept and the others are repeated. -/
theorem rowsOfKey_separate (key : Run.Key) {rows : List Row} (ordered : InKeyOrder rows) :
    rowsOfKey key (separate none rows).1 = (rowsOfKey key rows).take 1 ∧
      rowsOfKey key (separate none rows).2 = (rowsOfKey key rows).drop 1 := by
  cases rows with
  | nil => exact ⟨rfl, rfl⟩
  | cons row rest => exact rowsOfKey_separate_some key ordered

/-- The kept rows after a kept row have larger keys, in strict order. -/
theorem inStrictKeyOrder_separate_some {kept : Row} {rows : List Row}
    (ordered : InKeyOrder (kept :: rows)) :
    InStrictKeyOrder (kept :: (separate (some kept) rows).1) := by
  induction rows generalizing kept with
  | nil => exact List.pairwise_singleton _ _
  | cons row rest ih =>
      by_cases repeats : kept.run.key = row.run.key
      · rw [separate_cons_of_eq repeats]
        exact ih (ordered.sublist ((List.sublist_cons_self row rest).cons_cons kept))
      · have smaller := compareKey_eq_lt ordered repeats
        have later := ih (List.pairwise_cons.mp ordered).2
        rw [separate_cons_of_ne repeats]
        refine List.pairwise_cons.mpr ⟨fun other mem => ?_, later⟩
        rcases List.mem_cons.mp mem with rfl | mem
        · exact smaller
        · exact Std.TransCmp.lt_trans smaller ((List.pairwise_cons.mp later).1 other mem)

/-- The kept rows have different keys, in strict order. -/
theorem inStrictKeyOrder_separate {rows : List Row} (ordered : InKeyOrder rows) :
    InStrictKeyOrder (separate none rows).1 := by
  cases rows with
  | nil => exact List.Pairwise.nil
  | cons row rest => exact inStrictKeyOrder_separate_some ordered

end SpeedupStudy.Pass
