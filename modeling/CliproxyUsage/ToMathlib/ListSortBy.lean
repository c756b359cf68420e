import Mathlib.Data.List.Sort

/-! # Stable sorting by a comparison

A stable sort keeps the items that compare equal in their order, in either direction of the comparison. Where no
two items compare equal, the two directions are the reverse of each other.
-/

namespace List

variable {α : Type*} (cmp : α → α → Ordering) {items : List α}

/-- The stable sort by a comparison. -/
def sortBy (items : List α) : List α := items.insertionSort fun a b => (cmp a b).isLE

theorem perm_sortBy : (items.sortBy cmp).Perm items := perm_insertionSort _ items

/-- Items that compare equal keep their order. -/
theorem filter_sortBy {p : α → Bool} (ties : ∀ a b, p a → p b → cmp a b = .eq) :
    (items.sortBy cmp).filter p = items.filter p := by
  have sorted : (items.filter p).Pairwise fun a b => (cmp a b).isLE := by
    refine pairwise_of_forall_mem_list fun a first b second => ?_
    rw [ties a b (mem_filter.mp first).2 (mem_filter.mp second).2]
    rfl
  have kept : items.filter p <+ items.sortBy cmp := sublist_insertionSort sorted filter_sublist
  have inside := kept.filter p
  simp only [filter_filter, Bool.and_self] at inside
  exact (inside.eq_of_length ((perm_sortBy cmp).filter p).length_eq.symm).symm

section Sorted

variable [Std.TransCmp cmp]

theorem pairwise_sortBy : (items.sortBy cmp).Pairwise fun a b => (cmp a b).isLE := by
  have total : Std.Total fun a b => (cmp a b).isLE = true := by
    refine ⟨fun a b => ?_⟩
    have swap : cmp b a = (cmp a b).swap := Std.OrientedCmp.eq_swap
    rw [swap]
    cases cmp a b <;> simp
  have trans : IsTrans α fun a b => (cmp a b).isLE = true := ⟨fun _ _ _ => Std.TransCmp.isLE_trans⟩
  exact pairwise_insertionSort _ items

/-- Sorting in the other direction reverses the list, unless items compare equal. -/
theorem sortBy_swap (ties : ∀ a ∈ items, ∀ b ∈ items, cmp a b = .eq → a = b) :
    items.sortBy (fun a b => (cmp a b).swap) = (items.sortBy cmp).reverse := by
  have swapped : (fun a b => (cmp a b).swap) = fun a b => cmp b a := by
    funext a b
    exact Std.OrientedCmp.eq_swap.symm
  have perm : (items.sortBy fun a b => cmp b a).Perm (items.sortBy cmp).reverse :=
    (perm_sortBy _).trans ((reverse_perm _).trans (perm_sortBy cmp)).symm
  rw [swapped]
  refine perm.eq_of_pairwise ?_ (pairwise_sortBy _) (pairwise_reverse.mpr (pairwise_sortBy cmp))
  intro a b first second after before
  rw [(perm_sortBy _).mem_iff] at first
  rw [mem_reverse, (perm_sortBy _).mem_iff] at second
  exact ties a first b second (Std.OrientedCmp.isLE_antisymm before after)

end Sorted

/-- Items of which those with a property come first. -/
theorem filter_append_filter_of_pairwise {p : α → Bool} (sorted : items.Pairwise fun a b => p b → p a) :
    items.filter p ++ items.filter (fun a => !p a) = items := by
  induction items with
  | nil => rfl
  | cons a rest ih =>
    obtain ⟨first, later⟩ := pairwise_cons.mp sorted
    cases holds : p a with
    | true => simpa [holds] using ih later
    | false =>
      have none_ : ∀ b ∈ rest, p b = false := fun b member => by
        simpa [holds] using first b member
      have left : (a :: rest).filter p = [] := by simpa [holds] using none_
      have right : (a :: rest).filter (fun a => !p a) = a :: rest := by simpa [holds] using none_
      rw [left, right, nil_append]

end List
