import CliproxyUsage.ToMathlib.ExceptMap
import Mathlib.Data.List.Perm.Basic
import Mathlib.Data.List.Sort

/-! # Sorting with comparisons that fail

A stable insertion sort whose comparison may raise. Where a comparison succeeds exactly within one
kind of items, the sort succeeds exactly on items of one kind, as any sort by comparisons does.
-/

namespace List

variable {α κ ε : Type} {lt : α → α → Except ε Bool}

/-- Insert before the first item that is not less. -/
def insertM (lt : α → α → Except ε Bool) (a : α) : List α → Except ε (List α)
  | [] => .ok [a]
  | b :: rest => do
    if ← lt b a then
      let later ← insertM lt a rest
      .ok (b :: later)
    else .ok (a :: b :: rest)

def sortM (lt : α → α → Except ε Bool) : List α → Except ε (List α)
  | [] => .ok []
  | a :: rest => do
    let sorted ← sortM lt rest
    insertM lt a sorted

private theorem insertM_perm {a : α} {items result : List α} (inserted : insertM lt a items = .ok result) :
    result.Perm (a :: items) := by
  induction items generalizing result with
  | nil =>
    cases inserted
    exact .refl _
  | cons b rest ih =>
    simp only [insertM, Except.bind_def, Except.bind_eq_ok] at inserted
    obtain ⟨less, _, inserted⟩ := inserted
    split at inserted
    · simp only [Except.bind_eq_ok, Except.ok.injEq] at inserted
      obtain ⟨later, placed, rfl⟩ := inserted
      exact ((ih placed).cons b).trans (.swap a b rest)
    · cases inserted
      exact .refl _

theorem sortM_perm {items sorted : List α} (ran : sortM lt items = .ok sorted) : sorted.Perm items := by
  induction items generalizing sorted with
  | nil =>
    cases ran
    exact .refl _
  | cons a rest ih =>
    simp only [sortM, Except.bind_def, Except.bind_eq_ok] at ran
    obtain ⟨before, ran, inserted⟩ := ran
    exact (insertM_perm inserted).trans ((ih ran).cons a)

private theorem insertM_eq_orderedInsert {β : Type} [LinearOrder β] {f : α → β} {a : α} {items : List α}
    (compares : ∀ b ∈ items, lt b a = .ok (decide (f b < f a))) :
    insertM lt a items = .ok (items.orderedInsert (fun a b => f a ≤ f b) a) := by
  induction items with
  | nil => rfl
  | cons b rest ih =>
    rw [insertM, compares b (mem_cons_self ..), Except.bind_def, Except.bind_ok, orderedInsert]
    by_cases less : f b < f a
    · rw [if_pos (decide_eq_true less), if_neg (not_le.mpr less), ih fun c member => compares c (mem_cons_of_mem _ member)]
      rfl
    · rw [if_neg (by simpa using less), if_pos (not_lt.mp less)]

/-- Comparisons that follow a key and do not fail sort by the key. -/
theorem sortM_eq_insertionSort {β : Type} [LinearOrder β] {f : α → β} {items : List α}
    (compares : ∀ a ∈ items, ∀ b ∈ items, lt a b = .ok (decide (f a < f b))) :
    sortM lt items = .ok (items.insertionSort fun a b => f a ≤ f b) := by
  induction items with
  | nil => rfl
  | cons a rest ih =>
    have later := ih fun b member c member' => compares b (mem_cons_of_mem _ member) c (mem_cons_of_mem _ member')
    rw [sortM, later, Except.bind_def, Except.bind_ok]
    apply insertM_eq_orderedInsert
    intro b member
    exact compares b (mem_cons_of_mem _ ((perm_insertionSort _ rest).mem_iff.mp member)) a (mem_cons_self ..)

variable {kind : α → κ}

private theorem insertM_total (compares : ∀ a b, (∃ less, lt a b = .ok less) ↔ kind a = kind b) {a : α} {items : List α}
    (same : ∀ b ∈ items, kind b = kind a) : ∃ result, insertM lt a items = .ok result := by
  induction items with
  | nil => exact ⟨_, rfl⟩
  | cons b rest ih =>
    obtain ⟨less, compared⟩ := (compares b a).mpr (same b (mem_cons_self ..))
    obtain ⟨later, placed⟩ := ih fun c member => same c (mem_cons_of_mem _ member)
    rw [insertM, compared, Except.bind_def, Except.bind_ok]
    cases less with
    | false => exact ⟨_, rfl⟩
    | true => exact ⟨b :: later, by rw [if_pos rfl, placed]; rfl⟩

/-- The sort succeeds exactly on items of one kind. -/
theorem sortM_ok_iff (compares : ∀ a b, (∃ less, lt a b = .ok less) ↔ kind a = kind b) {items : List α} :
    (∃ sorted, sortM lt items = .ok sorted) ↔ ∀ a ∈ items, ∀ b ∈ items, kind a = kind b := by
  induction items with
  | nil => simp [sortM]
  | cons a rest ih =>
    constructor
    · rintro ⟨sorted, ran⟩
      simp only [sortM, Except.bind_def, Except.bind_eq_ok] at ran
      obtain ⟨before, ran, inserted⟩ := ran
      have uniform := ih.mp ⟨before, ran⟩
      have order := sortM_perm ran
      -- The first item of the sorted rest was compared with the new one.
      have own : ∀ b ∈ rest, kind b = kind a := by
        cases before with
        | nil => simp [order.nil_eq.symm]
        | cons first others =>
          simp only [insertM, Except.bind_def, Except.bind_eq_ok] at inserted
          obtain ⟨less, compared, _⟩ := inserted
          have head := (compares first a).mp ⟨less, compared⟩
          have present : first ∈ rest := order.mem_iff.mp (mem_cons_self ..)
          exact fun b member => (uniform b member first present).trans head
      intro b member c member'
      rcases mem_cons.mp member with rfl | inRest
      · rcases mem_cons.mp member' with rfl | inRest'
        · rfl
        · exact (own c inRest').symm
      · rcases mem_cons.mp member' with rfl | inRest'
        · exact own b inRest
        · exact uniform b inRest c inRest'
    · intro uniform
      obtain ⟨before, ran⟩ := ih.mpr fun b member c member' =>
        uniform b (mem_cons_of_mem _ member) c (mem_cons_of_mem _ member')
      obtain ⟨result, inserted⟩ := @insertM_total _ _ _ lt kind compares a before fun b member =>
        uniform b (mem_cons_of_mem _ ((sortM_perm ran).mem_iff.mp member)) a (mem_cons_self ..)
      exact ⟨result, by rw [sortM, ran, Except.bind_def, Except.bind_ok, inserted]⟩

end List
