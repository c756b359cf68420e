import CliproxyUsage.Python.Exceptions
import CliproxyUsage.ToMathlib.ExceptMap
import Mathlib.Algebra.Order.BigOperators.Group.List
import Mathlib.Tactic.Linarith

/-! # Joins and sums of a SELECT

`leftJoin` keeps every left row, once for each matching right row or once with none. `sqlSum` is
the `SUM` of integers: it fails when a partial sum leaves the 64-bit range, except that an operand
outside that range, which only an overflowing expression yields, is a REAL and turns the whole sum
into one. Reals are exact here.
-/

namespace Sqlite

open Python

variable {α β : Type}

/-- A left row beside each of its matches, or beside NULLs. -/
def joinRow (a : α) : List β → List (α × Option β)
  | [] => [(a, none)]
  | b :: found => (b :: found).map fun b => (a, some b)

/-- `left LEFT JOIN right ON on`. -/
def leftJoin (on : α → β → Bool) (left : List α) (right : List β) : List (α × Option β) :=
  left.flatMap fun a => joinRow a (right.filter (on a))

def FitsInt64 (n : ℤ) : Prop := -9223372036854775808 ≤ n ∧ n ≤ 9223372036854775807

instance (n : ℤ) : Decidable (FitsInt64 n) := inferInstanceAs (Decidable (_ ∧ _))

def sqlSumFrom (total : ℤ) : List ℤ → Except PyError ℤ
  | [] => .ok total
  | n :: rest =>
    if ¬FitsInt64 n then .ok (total + n + rest.sum)
    else if FitsInt64 (total + n) then sqlSumFrom (total + n) rest
    else .error .operationalError

/-- `SUM(column)` over the rows of a group. -/
def sqlSum (values : List ℤ) : Except PyError ℤ := sqlSumFrom 0 values

/-- When each left row matches at most one right row, the join adds a column and no row. -/
theorem leftJoin_eq_map {on : α → β → Bool} {left : List α} {right : List β} (found : α → Option β)
    (matches_ : ∀ a ∈ left, right.filter (on a) = (found a).toList) :
    leftJoin on left right = left.map fun a => (a, found a) := by
  induction left with
  | nil => rfl
  | cons a rest ih =>
    have here := matches_ a (List.mem_cons_self ..)
    have later := ih fun b member => matches_ b (List.mem_cons_of_mem _ member)
    rw [leftJoin] at later ⊢
    rw [List.flatMap_cons, List.map_cons, later, here]
    cases found a <;> rfl

private theorem sqlSumFrom_ok {total result : ℤ} {values : List ℤ}
    (summed : sqlSumFrom total values = .ok result) : result = total + values.sum := by
  induction values generalizing total with
  | nil => simpa [sqlSumFrom] using summed.symm
  | cons n rest ih =>
    rw [sqlSumFrom] at summed
    split_ifs at summed
    · simp only [List.sum_cons, ih summed, add_assoc]
    · simp only [Except.ok.injEq] at summed
      simp only [List.sum_cons, ← summed, add_assoc]

/-- A sum that is returned is the sum. -/
theorem sqlSum_ok {values : List ℤ} {result : ℤ} (summed : sqlSum values = .ok result) :
    result = values.sum := by
  rw [sqlSumFrom_ok summed, zero_add]

private theorem sqlSumFrom_fits {total : ℤ} {values : List ℤ}
    (bound : |total| + (values.map fun n => |n|).sum ≤ 9223372036854775807) :
    sqlSumFrom total values = .ok (total + values.sum) := by
  induction values generalizing total with
  | nil => simp [sqlSumFrom]
  | cons n rest ih =>
    have rest_nonneg : 0 ≤ (rest.map fun n => |n|).sum :=
      List.sum_nonneg fun x member => by
        obtain ⟨y, _, rfl⟩ := List.mem_map.mp member
        exact abs_nonneg y
    simp only [List.map_cons, List.sum_cons] at bound
    have triangle := abs_add_le total n
    have sum_bounds := abs_le.mp (le_refl |total + n|)
    have n_bounds := abs_le.mp (le_refl |n|)
    have total_nonneg := abs_nonneg total
    have n_nonneg := abs_nonneg n
    rw [sqlSumFrom, if_neg (not_not.mpr ⟨by omega, by omega⟩), if_pos ⟨by omega, by omega⟩,
      ih (by omega), List.sum_cons, add_assoc]

/-- A sum whose absolute values fit in 64 bits does not overflow. -/
theorem sqlSum_fits {values : List ℤ} (bound : (values.map fun n => |n|).sum ≤ 9223372036854775807) :
    sqlSum values = .ok values.sum := by
  have start : sqlSumFrom 0 values = .ok (0 + values.sum) := by
    apply sqlSumFrom_fits
    simpa using bound
  rwa [zero_add] at start

end Sqlite
