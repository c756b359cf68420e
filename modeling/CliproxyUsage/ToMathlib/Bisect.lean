import Mathlib.Order.Defs.LinearOrder
import Mathlib.Algebra.Order.Ring.Nat

/-! # Binary search in a sorted list

`bisectRight values x` is the halving loop that finds the insertion point of `x` after all equal
elements. On a list in ascending order it separates exactly the elements up to `x` from the rest;
the fuel is the length of the list, which the halving never uses up.
-/

namespace List

variable {α : Type*} [LinearOrder α]

/-- Halve the interval from `lo` to `hi` until it is empty. -/
def bisectLoop (values : List α) (x : α) : ℕ → ℕ → ℕ → ℕ
  | 0, lo, _ => lo
  | fuel + 1, lo, hi =>
    if lo < hi then
      match values[(lo + hi) / 2]? with
      | none => lo
      | some y =>
        if x < y then bisectLoop values x fuel lo ((lo + hi) / 2)
        else bisectLoop values x fuel ((lo + hi) / 2 + 1) hi
    else lo

/-- The number of leading elements that are at most `x`, by binary search. -/
def bisectRight (values : List α) (x : α) : ℕ :=
  bisectLoop values x values.length 0 values.length

/-- Everything before `lo` is at most `x` and everything from `hi` on is above it. -/
def Separates (values : List α) (x : α) (lo hi : ℕ) : Prop :=
  lo ≤ hi ∧ hi ≤ values.length ∧ (∀ i (bound : i < values.length), i < lo → values[i] ≤ x) ∧
    ∀ i (bound : i < values.length), hi ≤ i → x < values[i]

private theorem getElem_mono {values : List α} (ascending : values.Pairwise (· ≤ ·)) {i j : ℕ}
    (bound : j < values.length) (before : i ≤ j) : values[i] ≤ values[j] := by
  rcases Nat.eq_or_lt_of_le before with same | earlier
  · exact le_of_eq (by simp only [same])
  · exact pairwise_iff_getElem.mp ascending i j _ bound earlier

private theorem Separates.done {values : List α} {x : α} {lo : ℕ} (cut : Separates values x lo lo) :
    lo ≤ values.length ∧ ∀ i (bound : i < values.length), i < lo ↔ values[i] ≤ x := by
  obtain ⟨_, inside, below, above⟩ := cut
  refine ⟨inside, fun i bound => ⟨below i bound, fun upTo => ?_⟩⟩
  by_contra past
  exact absurd upTo (not_le.mpr (above i bound (by omega)))

private theorem bisectLoop_spec {values : List α} (ascending : values.Pairwise (· ≤ ·)) (x : α)
    (fuel lo hi : ℕ) (enough : hi ≤ lo + fuel) (cut : Separates values x lo hi) :
    bisectLoop values x fuel lo hi ≤ values.length ∧
      ∀ i (bound : i < values.length), i < bisectLoop values x fuel lo hi ↔ values[i] ≤ x := by
  induction fuel generalizing lo hi with
  | zero =>
    obtain rfl : hi = lo := Nat.le_antisymm (by omega) cut.1
    exact cut.done
  | succ fuel ih =>
    rw [bisectLoop]
    split_ifs with nonempty
    · obtain ⟨_, inside, below, above⟩ := cut
      have middle : (lo + hi) / 2 < values.length := by omega
      rw [getElem?_eq_getElem middle]
      dsimp only
      split_ifs with less
      · refine ih lo _ (by omega) ⟨by omega, middle.le, below, fun i bound past => ?_⟩
        exact less.trans_le (getElem_mono ascending bound past)
      · refine ih _ hi (by omega) ⟨by omega, inside, fun i bound before => ?_, above⟩
        exact (getElem_mono ascending middle (Nat.le_of_lt_succ before)).trans (not_lt.mp less)
    · obtain rfl : hi = lo := Nat.le_antisymm (by omega) cut.1
      exact cut.done

private theorem separates_whole (values : List α) (x : α) : Separates values x 0 values.length :=
  ⟨Nat.zero_le _, le_rfl, fun _ _ before => absurd before (Nat.not_lt_zero _),
    fun _ bound past => absurd bound (not_lt.mpr past)⟩

theorem bisectRight_le_length {values : List α} (ascending : values.Pairwise (· ≤ ·)) (x : α) :
    bisectRight values x ≤ values.length :=
  (bisectLoop_spec ascending x _ _ _ (by omega) (separates_whole values x)).1

/-- Exactly the elements before the insertion point are at most `x`. -/
theorem lt_bisectRight_iff {values : List α} (ascending : values.Pairwise (· ≤ ·)) (x : α)
    {i : ℕ} (bound : i < values.length) : i < bisectRight values x ↔ values[i] ≤ x :=
  (bisectLoop_spec ascending x _ _ _ (by omega) (separates_whole values x)).2 i bound

end List
