/-
# Stable sorting by a comparison

Rows, skipped files and groups are listed in the order of a three-way comparison. The sort is
stable, so elements that compare equal keep the order in which they came.
-/

namespace SpeedupStudy

universe u
variable {α : Type u}

/-- Sort by a comparison; elements that compare equal keep their places. -/
def sortBy (compare : α → α → Ordering) (s : List α) : List α :=
  s.mergeSort fun a b => (compare a b).isLE

/-- Sorting moves elements and neither loses nor repeats one. -/
theorem sortBy_perm (compare : α → α → Ordering) (s : List α) : (sortBy compare s).Perm s :=
  List.mergeSort_perm s _

@[simp]
theorem length_sortBy (compare : α → α → Ordering) (s : List α) :
    (sortBy compare s).length = s.length :=
  (sortBy_perm compare s).length_eq

@[simp]
theorem mem_sortBy {compare : α → α → Ordering} {s : List α} {a : α} :
    a ∈ sortBy compare s ↔ a ∈ s :=
  (sortBy_perm compare s).mem_iff

end SpeedupStudy
