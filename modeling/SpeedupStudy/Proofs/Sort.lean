/-
# Stable sorting

Sorting by a total preorder gives a sorted list, and it commutes with every selection: the chosen
elements of a sorted list are the sorted chosen elements. All that is said about stability follows,
as a selection of elements that are in order already is not changed by sorting. An element precedes
another in the sorted list if it is smaller, or if neither is smaller and it came first.
-/

import Mathlib
import SpeedupStudy.Sort

namespace SpeedupStudy

universe u
variable {α : Type u} {cmp : α → α → Ordering}

/-- A comparison of what a function makes of elements is as good as the comparison itself. -/
theorem transCmp_comap {β : Type} {cmp : β → β → Ordering} [Std.TransCmp cmp] (f : α → β) :
    Std.TransCmp fun a b => cmp (f a) (f b) where
  eq_swap := Std.OrientedCmp.eq_swap
  isLE_trans below above := Std.TransCmp.isLE_trans below above

/-- A list has only one cut between elements of a kind and elements of another. -/
theorem append_inj_of_kinds {p : α → Bool} {first second first' second' : List α}
    (same : first ++ second = first' ++ second')
    (in_first : ∀ a ∈ first, p a = true) (in_second : ∀ a ∈ second, p a = false)
    (in_first' : ∀ a ∈ first', p a = true) (in_second' : ∀ a ∈ second', p a = false) :
    first = first' ∧ second = second' := by
  have front : ∀ {before after : List α}, (∀ a ∈ before, p a = true) →
      (∀ a ∈ after, p a = false) → (before ++ after).filter p = before := by
    intro before after kept dropped
    rw [List.filter_append, List.filter_eq_self.mpr kept,
      List.filter_eq_nil_iff.mpr fun a mem => by simp [dropped a mem], List.append_nil]
  have found : first = first' :=
    calc
      first = (first ++ second).filter p := (front in_first in_second).symm
      _ = (first' ++ second').filter p := by rw [same]
      _ = first' := front in_first' in_second'
  exact ⟨found, List.append_cancel_left (same.trans (by rw [found]))⟩

/-- Sorting a list that is in order already changes nothing. -/
theorem sortBy_of_pairwise {s : List α} (ordered : s.Pairwise fun a b => (cmp a b).isLE) :
    sortBy cmp s = s :=
  List.mergeSort_of_pairwise ordered

variable [Std.TransCmp cmp]

theorem isLE_total (a b : α) : ((cmp a b).isLE || (cmp b a).isLE) = true := by
  cases order : cmp a b with
  | lt => rfl
  | eq => rfl
  | gt => rw [Std.OrientedCmp.lt_of_gt order]; rfl

/-- A sorted list is in order. -/
theorem pairwise_sortBy (s : List α) :
    (sortBy cmp s).Pairwise fun a b => (cmp a b).isLE :=
  List.pairwise_mergeSort (fun _ _ _ => Std.TransCmp.isLE_trans) isLE_total s

/-- Different elements that the order tells apart are in strict order when they are sorted. -/
theorem pairwise_lt_sortBy_of_apart {s : List α} (distinct : s.Nodup)
    (apart : ∀ a ∈ s, ∀ b ∈ s, cmp a b = .eq → a = b) :
    (sortBy cmp s).Pairwise fun a b => cmp a b = .lt := by
  have distinct' : (sortBy cmp s).Nodup := (sortBy_perm cmp s).nodup_iff.mpr distinct
  refine List.Pairwise.imp_of_mem ?_ ((pairwise_sortBy s).and distinct')
  rintro a b mem mem' ⟨below, other⟩
  cases order : cmp a b with
  | lt => rfl
  | eq => exact absurd (apart a (mem_sortBy.mp mem) b (mem_sortBy.mp mem') order) other
  | gt => rw [order] at below; cases below

/-- A list whose different elements the order tells apart is sorted in one way, however it was
arranged before. -/
theorem sortBy_eq_of_perm {s s' : List α} (perm : s.Perm s')
    (apart : ∀ a ∈ s, ∀ b ∈ s, cmp a b = .eq → a = b) : sortBy cmp s = sortBy cmp s' := by
  have arranged : (sortBy cmp s).Perm (sortBy cmp s') :=
    ((sortBy_perm cmp s).trans perm).trans (sortBy_perm cmp s').symm
  refine List.Perm.eq_of_pairwise ?_ (pairwise_sortBy s) (pairwise_sortBy s') arranged
  intro a b mem mem' below above
  exact apart a (mem_sortBy.mp mem) b (perm.symm.subset (mem_sortBy.mp mem'))
    (Std.OrientedCmp.isLE_antisymm below above)

variable (cmp) in
/-- Sorting inserts the first element before all those of the sorted rest that are not smaller. -/
theorem sortBy_cons (a : α) (rest : List α) :
    ∃ smaller others, sortBy cmp (a :: rest) = smaller ++ a :: others ∧
      sortBy cmp rest = smaller ++ others ∧ (∀ b ∈ smaller, (cmp a b).isLE = false) ∧
      ∀ b ∈ others, (cmp a b).isLE = true := by
  have total : ∀ a b : α, ((cmp a b).isLE || (cmp b a).isLE) = true := isLE_total
  obtain ⟨smaller, others, sorted, sorted', above⟩ :=
    List.mergeSort_cons (fun _ _ _ => Std.TransCmp.isLE_trans) total a rest
  refine ⟨smaller, others, sorted, sorted', fun b mem => by simpa using above b mem, ?_⟩
  have ordered : (smaller ++ a :: others).Pairwise fun a b => (cmp a b).isLE := by
    rw [← sorted]
    exact pairwise_sortBy (a :: rest)
  exact (List.pairwise_cons.mp (List.pairwise_append.mp ordered).2.1).1

/-- The first element of a sorted list is smaller than all elements that came before it, and no
element that came after it is smaller. -/
theorem exists_append_of_sortBy_eq_cons {s sorted : List α} {a : α}
    (found : sortBy cmp s = a :: sorted) :
    ∃ before after, s = before ++ a :: after ∧ (∀ b ∈ before, cmp a b = .lt) ∧
      ∀ b ∈ after, (cmp a b).isLE = true := by
  induction s generalizing sorted with
  | nil => simp [sortBy] at found
  | cons b rest ih =>
      obtain ⟨smaller, others, inserted, sorted', above, below⟩ := sortBy_cons cmp b rest
      rw [inserted] at found
      cases smaller with
      | nil =>
          obtain ⟨rfl, rfl⟩ := List.cons.inj found
          rw [List.nil_append] at sorted'
          refine ⟨[], rest, rfl, by simp, fun c mem => below c ?_⟩
          rw [← sorted']
          exact mem_sortBy.mpr mem
      | cons first smaller =>
          obtain ⟨rfl, -⟩ := List.cons.inj found
          obtain ⟨before, after, rfl, first_lt, first_le⟩ := ih sorted'
          refine ⟨b :: before, after, rfl, fun c mem => ?_, first_le⟩
          rcases List.mem_cons.mp mem with rfl | mem
          · exact Std.OrientedCmp.lt_of_not_isLE (by simp [above first List.mem_cons_self])
          · exact first_lt c mem

/-- Sorting commutes with selection. -/
theorem filter_sortBy (p : α → Bool) (s : List α) :
    (sortBy cmp s).filter p = sortBy cmp (s.filter p) := by
  induction s with
  | nil => simp [sortBy]
  | cons a rest ih =>
      obtain ⟨smaller, others, sorted, sorted', above, below⟩ := sortBy_cons cmp a rest
      have parts : smaller.filter p ++ others.filter p = sortBy cmp (rest.filter p) := by
        rw [← ih, sorted', List.filter_append]
      cases chosen : p a with
      | false => simp [sorted, chosen, parts]
      | true =>
          obtain ⟨smaller', others', found, found', above', below'⟩ :=
            sortBy_cons cmp a (rest.filter p)
          obtain ⟨rfl, rfl⟩ :=
            append_inj_of_kinds (p := fun b => ! (cmp a b).isLE) (parts.trans found')
              (fun b mem => by rw [above b (List.mem_filter.mp mem).1]; rfl)
              (fun b mem => by rw [below b (List.mem_filter.mp mem).1]; rfl)
              (fun b mem => by rw [above' b mem]; rfl) (fun b mem => by rw [below' b mem]; rfl)
          simp [sorted, chosen, found]

end SpeedupStudy
