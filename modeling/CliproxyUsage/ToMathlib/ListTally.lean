import Mathlib.Algebra.BigOperators.Group.List.Basic
import Mathlib.Data.List.Induction

/-! # Tallies

The loop that adds the amount of every item at the item's position in a list of totals. Items
without a position are skipped; where every item has one, the totals sum to the amounts.
-/

namespace List

variable {α M : Type*} [AddCommMonoid M]

/-- Add the amount of an item at its position. -/
def addAt (position : α → Option ℕ) (f : α → M) (totals : List M) (a : α) : List M :=
  match position a with
  | none => totals
  | some i => totals.modify i (· + f a)

/-- The totals of a list of items at `n` positions. -/
def tally (n : ℕ) (position : α → Option ℕ) (f : α → M) (items : List α) : List M :=
  items.foldl (addAt position f) (replicate n 0)

variable {position : α → Option ℕ} {f : α → M}

/-- The amount of an item that counts at one position. -/
def amountAt (position : α → Option ℕ) (f : α → M) (i : ℕ) (a : α) : M := if position a = some i then f a else 0

private theorem getElem?_addAt (totals : List M) (a : α) (i : ℕ) :
    (addAt position f totals a)[i]? = totals[i]?.map (· + amountAt position f i a) := by
  rw [addAt, amountAt]
  cases at_ : position a with
  | none => simp
  | some j =>
    simp only [getElem?_modify, Option.some.injEq]
    split
    · rfl
    · simp

private theorem getElem?_foldl_addAt (totals : List M) (items : List α) (i : ℕ) :
    (items.foldl (addAt position f) totals)[i]? = totals[i]?.map (· + (items.map (amountAt position f i)).sum) := by
  induction items generalizing totals with
  | nil => simp
  | cons a rest ih =>
    rw [foldl_cons, ih, getElem?_addAt, Option.map_map, map_cons, sum_cons]
    congr 1
    funext total
    rw [Function.comp_apply, add_assoc]

theorem getElem?_tally (n : ℕ) (items : List α) (i : ℕ) :
    (tally n position f items)[i]? = if i < n then some (items.map (amountAt position f i)).sum else none := by
  rw [tally, getElem?_foldl_addAt, getElem?_replicate]
  split <;> simp

theorem length_tally (n : ℕ) (items : List α) : (tally n position f items).length = n := by
  rw [tally]
  induction items using List.reverseRecOn with
  | nil => simp
  | append_singleton rest a ih =>
    rw [foldl_append, foldl_cons, foldl_nil, addAt]
    cases position a with
    | none => exact ih
    | some i => rw [length_modify, ih]

private theorem sum_modify {totals : List M} {i : ℕ} (inside : i < totals.length) (x : M) :
    (totals.modify i (· + x)).sum = totals.sum + x := by
  induction totals generalizing i with
  | nil => simp at inside
  | cons first rest ih =>
    cases i with
    | zero => simp [add_right_comm]
    | succ i =>
      rw [modify_succ_cons, sum_cons, sum_cons, ih (by simpa using inside), add_assoc]

/-- Where every item has a position, no amount is lost. -/
theorem sum_tally {n : ℕ} {items : List α} (placed : ∀ a ∈ items, ∃ i < n, position a = some i) :
    (tally n position f items).sum = (items.map f).sum := by
  induction items using List.reverseRecOn with
  | nil => simp [tally]
  | append_singleton rest a ih =>
    have before := ih fun other member => placed other (mem_append_left _ member)
    have step : tally n position f (rest ++ [a]) = addAt position f (tally n position f rest) a := by
      rw [tally, foldl_append]
      rfl
    obtain ⟨i, inside, at_⟩ := placed a (by simp)
    rw [step, addAt, at_, map_append, sum_append, ← before]
    dsimp only
    rw [sum_modify (by rw [length_tally]; exact inside)]
    simp

theorem sum_amountAt (i : ℕ) (items : List α) :
    (items.map (amountAt position f i)).sum = ((items.filter fun a => decide (position a = some i)).map f).sum := by
  induction items with
  | nil => rfl
  | cons a rest ih =>
    rw [map_cons, sum_cons, ih, amountAt, filter_cons]
    by_cases here : position a = some i <;> simp [here]

/-- Each total is the sum of its own items. -/
theorem tally_eq (n : ℕ) (items : List α) :
    tally n position f items =
      (range n).map fun i => ((items.filter fun a => decide (position a = some i)).map f).sum := by
  refine ext_getElem? fun i => ?_
  rw [getElem?_tally, getElem?_map, sum_amountAt]
  split
  · next inside => rw [getElem?_range inside, Option.map_some]
  · next outside => rw [getElem?_eq_none (by simpa using outside), Option.map_none]

section Cross

variable {row col : α → Option ℕ}

/-- Add the amount of an item where its row and its column cross. -/
def addCross (row col : α → Option ℕ) (f : α → M) (totals : List (List M)) (a : α) : List (List M) :=
  match row a, col a with
  | some i, some j => totals.modify i fun line => line.modify j (· + f a)
  | _, _ => totals

/-- The totals of a list of items at the crossings of `n` rows and `m` columns. -/
def crossTally (n m : ℕ) (row col : α → Option ℕ) (f : α → M) (items : List α) : List (List M) :=
  items.foldl (addCross row col f) (replicate n (replicate m 0))

/-- Each row is the tally of its own items. -/
theorem crossTally_eq (n m : ℕ) (items : List α) :
    crossTally n m row col f items =
      (range n).map fun i => tally m col f (items.filter fun a => decide (row a = some i)) := by
  induction items using List.reverseRecOn with
  | nil =>
    rw [crossTally, foldl_nil]
    simp [tally]
  | append_singleton rest a ih =>
    have step : crossTally n m row col f (rest ++ [a]) = addCross row col f (crossTally n m row col f rest) a := by
      rw [crossTally, foldl_append]
      rfl
    have own (i : ℕ) : tally m col f ((rest ++ [a]).filter fun a => decide (row a = some i)) =
        if row a = some i then addAt col f (tally m col f (rest.filter fun a => decide (row a = some i))) a
        else tally m col f (rest.filter fun a => decide (row a = some i)) := by
      rw [filter_append]
      by_cases here : row a = some i
      · have last : [a].filter (fun a => decide (row a = some i)) = [a] := by simp [here]
        rw [if_pos here, last, tally, foldl_append]
        rfl
      · simp [here]
    rw [step, ih, addCross]
    simp only [own]
    cases at_ : row a with
    | none => simp
    | some i =>
      simp only [Option.some.injEq]
      cases beside : col a with
      | none => simp [addAt, beside]
      | some j =>
        refine ext_getElem? fun k => ?_
        simp only [addAt, beside, getElem?_modify, getElem?_map]
        by_cases inside : k < n
        · rw [getElem?_range inside]
          by_cases here : i = k <;> simp [here]
        · rw [getElem?_eq_none (by simpa using inside)]
          simp

/-- Where every item has a column, each row sums to the amounts of its items. -/
theorem map_sum_crossTally {n m : ℕ} {items : List α} (placed : ∀ a ∈ items, ∃ j < m, col a = some j) :
    (crossTally n m row col f items).map sum =
      (range n).map fun i => ((items.filter fun a => decide (row a = some i)).map f).sum := by
  rw [crossTally_eq, map_map]
  exact map_congr_left fun i _ => sum_tally fun a member => placed a (mem_of_mem_filter member)

/-- Where every item has a row, each column sums to the amounts of its items. -/
theorem sum_column_crossTally {n m : ℕ} {items : List α} (placed : ∀ a ∈ items, ∃ i < n, row a = some i) {j : ℕ}
    (inside : j < m) : ((crossTally n m row col f items).map fun cells => cells[j]?.getD 0).sum =
      ((items.filter fun a => decide (col a = some j)).map f).sum := by
  rw [crossTally_eq, map_map, ← sum_amountAt, ← sum_tally placed, tally_eq]
  refine congrArg sum (map_congr_left fun i _ => ?_)
  rw [Function.comp_apply, getElem?_tally, if_pos inside, Option.getD_some]

end Cross

end List
