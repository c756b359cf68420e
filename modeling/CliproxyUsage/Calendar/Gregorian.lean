import Mathlib.Algebra.Order.BigOperators.Group.List
import Mathlib.Algebra.Order.Ring.Int
import Mathlib.Algebra.Order.Ring.Nat
import Mathlib.Order.Monotone.Basic

/-! # Day numbers of the proleptic Gregorian calendar

Days are counted from 1970-01-01, a Thursday, and weekdays from Monday. The count is linear in the
day of the month, so a day past the end of its month names a day of the next one.
-/

namespace Gregorian

def isLeap (year : ℤ) : Bool := year % 4 = 0 ∧ (year % 100 ≠ 0 ∨ year % 400 = 0)

/-- Days from 0001-01-01 to the first day of `year`. -/
def daysBeforeYear (year : ℤ) : ℤ :=
  (year - 1) * 365 + (year - 1) / 4 - (year - 1) / 100 + (year - 1) / 400

def daysInMonth (year : ℤ) : ℕ → ℕ
  | 2 => if isLeap year then 29 else 28
  | 4 | 6 | 9 | 11 => 30
  | _ => 31

/-- Days from the first day of `year` to the first day of its `month`. -/
def daysBeforeMonth (year : ℤ) (month : ℕ) : ℕ :=
  ((List.range (month - 1)).map fun earlier => daysInMonth year (earlier + 1)).sum

/-- The number of a date; `day` may exceed the length of the month. -/
def dayNumber (year : ℤ) (month day : ℕ) : ℤ :=
  daysBeforeYear year + daysBeforeMonth year month + day - 719163

/-- Monday is 0. -/
def weekday (day : ℤ) : ℤ := (day + 3) % 7

/-- The Monday that starts the first ISO week of `year`, the week of its first Thursday. -/
def isoWeekOneMonday (year : ℤ) : ℤ :=
  let first := dayNumber year 1 1
  let monday := first - weekday first
  if 3 < weekday first then monday + 7 else monday

/-- The year of a day: whole cycles of 400 years, then centuries, leap periods and single years. -/
def yearOf (day : ℤ) : ℤ :=
  let inCycle := (day + 719162) % 146097
  let century := min (inCycle / 36524) 3
  let inCentury := inCycle - century * 36524
  let single := min (inCentury % 1461 / 365) 3
  (day + 719162) / 146097 * 400 + century * 100 + inCentury / 1461 * 4 + single + 1

/-- The days of its year before a day. -/
def dayOfYear (day : ℤ) : ℤ := day + 719162 - daysBeforeYear (yearOf day)

/-- The last month that starts by a day of the year. -/
def monthFrom (year dayOfYear : ℤ) : ℕ :=
  ((List.range 12).filter fun earlier => (daysBeforeMonth year (earlier + 1) : ℤ) ≤ dayOfYear).length

def monthOf (day : ℤ) : ℕ := monthFrom (yearOf day) (dayOfYear day)

def dayOfMonth (day : ℤ) : ℤ := dayOfYear day - daysBeforeMonth (yearOf day) (monthOf day) + 1

theorem daysInMonth_le (year : ℤ) (month : ℕ) : daysInMonth year month ≤ 31 := by
  unfold daysInMonth
  split
  · split <;> omega
  all_goals omega

theorem daysBeforeMonth_le (year : ℤ) (month : ℕ) : daysBeforeMonth year month ≤ 31 * (month - 1) := by
  have bound := List.sum_le_card_nsmul ((List.range (month - 1)).map fun earlier => daysInMonth year (earlier + 1)) 31
    fun days member => by
      obtain ⟨earlier, _, rfl⟩ := List.mem_map.mp member
      exact daysInMonth_le year _
  rw [List.length_map, List.length_range, nsmul_eq_mul, Nat.mul_comm] at bound
  exact bound

theorem daysBeforeYear_succ (year : ℤ) :
    daysBeforeYear (year + 1) = daysBeforeYear year + if isLeap year then 366 else 365 := by
  rw [daysBeforeYear, daysBeforeYear, isLeap]
  split <;> rename_i leap <;> simp only [decide_eq_true_eq] at leap <;> omega

/-- The year of a day splits into cycles, centuries, leap periods and single years. -/
private theorem yearOf_parts (day : ℤ) : ∃ cycle century four single rest : ℤ,
    yearOf day = cycle * 400 + century * 100 + four * 4 + single + 1 ∧
    day + 719162 = cycle * 146097 + century * 36524 + four * 1461 + single * 365 + rest ∧
    0 ≤ century ∧ century ≤ 3 ∧ 0 ≤ four ∧ four ≤ 24 ∧ 0 ≤ single ∧ single ≤ 3 ∧ 0 ≤ rest ∧
    (rest < 365 ∨ rest = 365 ∧ single = 3 ∧ (four < 24 ∨ century = 3)) := by
  have cycle := Int.emod_nonneg (day + 719162) (by decide : (146097 : ℤ) ≠ 0)
  have inCycle := Int.emod_lt_of_pos (day + 719162) (by decide : (0 : ℤ) < 146097)
  have whole := Int.mul_ediv_add_emod (day + 719162) 146097
  rw [yearOf]
  generalize (day + 719162) % 146097 = r at *
  generalize (day + 719162) / 146097 = c at *
  have century : 0 ≤ min (r / 36524) 3 ∧ min (r / 36524) 3 ≤ 3 ∧ 0 ≤ r - min (r / 36524) 3 * 36524 ∧
      (r - min (r / 36524) 3 * 36524 < 36524 ∨
        r - min (r / 36524) 3 * 36524 = 36524 ∧ min (r / 36524) 3 = 3) := by omega
  generalize min (r / 36524) 3 = e at *
  have period := Int.mul_ediv_add_emod (r - e * 36524) 1461
  have inPeriod := Int.emod_nonneg (r - e * 36524) (by decide : (1461 : ℤ) ≠ 0)
  have upTo := Int.emod_lt_of_pos (r - e * 36524) (by decide : (0 : ℤ) < 1461)
  generalize (r - e * 36524) / 1461 = f at *
  generalize (r - e * 36524) % 1461 = s at *
  refine ⟨c, e, f, min (s / 365) 3, s - min (s / 365) 3 * 365, rfl, ?_⟩
  omega

theorem dayOfYear_bounds (day : ℤ) : 0 ≤ dayOfYear day ∧ dayOfYear day < if isLeap (yearOf day) then 366 else 365 := by
  obtain ⟨cycle, century, four, single, rest, year, split, bounds⟩ := yearOf_parts day
  rw [dayOfYear, split, daysBeforeYear, isLeap, year]
  have quarters : (cycle * 400 + century * 100 + four * 4 + single + 1 - 1) / 4 = cycle * 100 + century * 25 + four := by
    omega
  have hundreds : (cycle * 400 + century * 100 + four * 4 + single + 1 - 1) / 100 = cycle * 4 + century := by omega
  have cycles : (cycle * 400 + century * 100 + four * 4 + single + 1 - 1) / 400 = cycle := by omega
  rw [quarters, hundreds, cycles]
  refine ⟨by omega, ?_⟩
  split
  · omega
  · next common =>
    rw [decide_eq_true_eq] at common
    omega

private theorem daysInMonth_congr {year year' : ℤ} (same : isLeap year = isLeap year') (month : ℕ) :
    daysInMonth year month = daysInMonth year' month := by
  rw [daysInMonth.eq_def, daysInMonth.eq_def, same]

private theorem daysBeforeMonth_congr {year year' : ℤ} (same : isLeap year = isLeap year') (month : ℕ) :
    daysBeforeMonth year month = daysBeforeMonth year' month := by
  simp only [daysBeforeMonth, daysInMonth_congr same]

/-- The months of a common and of a leap year. -/
private theorem monthFrom_table : (∀ d ∈ List.range 365, 1 ≤ monthFrom 2001 d ∧ monthFrom 2001 d ≤ 12 ∧
      daysBeforeMonth 2001 (monthFrom 2001 d) ≤ d ∧
      d < daysBeforeMonth 2001 (monthFrom 2001 d) + daysInMonth 2001 (monthFrom 2001 d)) ∧
    ∀ d ∈ List.range 366, 1 ≤ monthFrom 2000 d ∧ monthFrom 2000 d ≤ 12 ∧
      daysBeforeMonth 2000 (monthFrom 2000 d) ≤ d ∧
      d < daysBeforeMonth 2000 (monthFrom 2000 d) + daysInMonth 2000 (monthFrom 2000 d) := by
  decide +kernel

private theorem monthFrom_spec {year d : ℤ} (first : 0 ≤ d) (last : d < if isLeap year then 366 else 365) :
    1 ≤ monthFrom year d ∧ monthFrom year d ≤ 12 ∧ (daysBeforeMonth year (monthFrom year d) : ℤ) ≤ d ∧
      d < daysBeforeMonth year (monthFrom year d) + daysInMonth year (monthFrom year d) := by
  obtain ⟨n, rfl⟩ := Int.eq_ofNat_of_zero_le first
  have table : ∃ other, isLeap year = isLeap other ∧ 1 ≤ monthFrom other n ∧ monthFrom other n ≤ 12 ∧
      daysBeforeMonth other (monthFrom other n) ≤ n ∧
      n < daysBeforeMonth other (monthFrom other n) + daysInMonth other (monthFrom other n) := by
    split at last
    · next leap => exact ⟨2000, leap, monthFrom_table.2 n (List.mem_range.mpr (by omega))⟩
    · next common => exact ⟨2001, eq_false_of_ne_true common, monthFrom_table.1 n (List.mem_range.mpr (by omega))⟩
  obtain ⟨other, same, bounds⟩ := table
  have month : monthFrom year n = monthFrom other n := by simp only [monthFrom, daysBeforeMonth_congr same]
  rw [month, daysBeforeMonth_congr same, daysInMonth_congr same]
  omega

/-- The fields of a day are those of a date of the calendar. -/
theorem fields_bounds (day : ℤ) : 1 ≤ monthOf day ∧ monthOf day ≤ 12 ∧ 1 ≤ dayOfMonth day ∧
    dayOfMonth day ≤ daysInMonth (yearOf day) (monthOf day) := by
  obtain ⟨first, last⟩ := dayOfYear_bounds day
  have bounds := monthFrom_spec first last
  rw [dayOfMonth, monthOf]
  omega

/-- The date of those fields is the day. -/
theorem dayNumber_fields (day : ℤ) : dayNumber (yearOf day) (monthOf day) 0 + dayOfMonth day = day := by
  rw [dayNumber, dayOfMonth, dayOfYear]
  omega

theorem daysBeforeYear_mono {earlier later : ℤ} (order : earlier ≤ later) :
    daysBeforeYear earlier ≤ daysBeforeYear later := by
  refine monotone_int_of_le_succ (fun year => ?_) order
  rw [daysBeforeYear_succ]
  split <;> omega

theorem yearOf_mono {earlier later : ℤ} (order : earlier ≤ later) : yearOf earlier ≤ yearOf later := by
  by_contra back
  have started := (dayOfYear_bounds earlier).1
  have late := (dayOfYear_bounds later).2
  have between := daysBeforeYear_mono (not_le.mp back : yearOf later + 1 ≤ yearOf earlier)
  have next := daysBeforeYear_succ (yearOf later)
  simp only [dayOfYear] at started late
  omega

/-- The first day of the month of a day. -/
def firstOfMonth (day : ℤ) : ℤ := dayNumber (yearOf day) (monthOf day) 1

theorem firstOfMonth_add (day : ℤ) : firstOfMonth day + dayOfMonth day = day + 1 := by
  have split := dayNumber_fields day
  rw [firstOfMonth]
  rw [dayNumber] at split ⊢
  push_cast at *
  omega

theorem firstOfMonth_le (day : ℤ) : firstOfMonth day ≤ day := by
  have split := firstOfMonth_add day
  have first := (fields_bounds day).2.2.1
  omega

theorem daysBeforeMonth_succ (year : ℤ) {month : ℕ} (positive : 1 ≤ month) :
    daysBeforeMonth year (month + 1) = daysBeforeMonth year month + daysInMonth year month := by
  obtain ⟨earlier, rfl⟩ := Nat.exists_eq_add_of_le' positive
  simp [daysBeforeMonth, List.range_succ]

theorem daysBeforeMonth_mono (year : ℤ) {earlier later : ℕ} (order : earlier ≤ later) :
    daysBeforeMonth year earlier ≤ daysBeforeMonth year later := by
  refine monotone_nat_of_le_succ (fun month => ?_) order
  rcases Nat.eq_zero_or_pos month with rfl | positive
  · exact le_rfl
  · rw [daysBeforeMonth_succ year positive]
    omega

/-- The month before starts at least two days earlier. -/
theorem firstOfMonth_before (day : ℤ) :
    dayNumber (yearOf day + ((monthOf day : ℤ) - 2) / 12) ((((monthOf day : ℤ) - 2) % 12).toNat + 1) 1 + 2 ≤
      firstOfMonth day := by
  obtain ⟨first, last, _⟩ := fields_bounds day
  rcases first.lt_or_eq with later | january
  · have year : ((monthOf day : ℤ) - 2) / 12 = 0 := by omega
    have month : (((monthOf day : ℤ) - 2) % 12).toNat + 1 = monthOf day - 1 := by omega
    have grown := daysBeforeMonth_succ (yearOf day) (show 1 ≤ monthOf day - 1 by omega)
    have length : 2 ≤ daysInMonth (yearOf day) (monthOf day - 1) := by
      rw [daysInMonth.eq_def]
      split <;> (try split) <;> decide
    rw [Nat.sub_add_cancel first] at grown
    rw [year, month, add_zero, firstOfMonth, dayNumber, dayNumber]
    omega
  · have year : ((monthOf day : ℤ) - 2) / 12 = -1 := by omega
    have month : (((monthOf day : ℤ) - 2) % 12).toNat + 1 = 12 := by omega
    have grown := daysBeforeYear_succ (yearOf day + -1)
    have length := daysBeforeMonth_le (yearOf day + -1) 12
    rw [neg_add_cancel_right] at grown
    rw [year, month, firstOfMonth, dayNumber, dayNumber]
    split at grown <;> omega

/-- From the first day of its month on, the days up to a day are of that month. -/
theorem month_between {day between : ℤ} (started : firstOfMonth day ≤ between) (reached : between ≤ day) :
    yearOf between = yearOf day ∧ firstOfMonth between = firstOfMonth day := by
  have year : yearOf between = yearOf day := by
    by_contra other
    have earlier : yearOf between + 1 ≤ yearOf day := by
      have := yearOf_mono reached
      omega
    have past := (dayOfYear_bounds between).2
    have order := daysBeforeYear_mono earlier
    have next := daysBeforeYear_succ (yearOf between)
    simp only [firstOfMonth, dayNumber] at started
    simp only [dayOfYear] at past
    omega
  have month : monthOf between = monthOf day := by
    have later : dayOfYear between ≤ dayOfYear day := by
      rw [dayOfYear, dayOfYear, year]
      omega
    have first : (daysBeforeMonth (yearOf day) (monthOf day) : ℤ) ≤ dayOfYear between := by
      simp only [firstOfMonth, dayNumber] at started
      rw [dayOfYear, year]
      omega
    have last := (monthFrom_spec (dayOfYear_bounds day).1 (dayOfYear_bounds day).2).2.2.2
    have positive := (fields_bounds day).1
    rw [monthOf, monthOf, year, monthFrom, monthFrom]
    refine congrArg List.length (List.filter_congr fun earlier _ => ?_)
    rw [decide_eq_decide]
    refine ⟨fun starts => starts.trans later, fun starts => ?_⟩
    -- A month that starts by the later day is not after that day's month.
    have upTo : earlier + 1 ≤ monthOf day := by
      by_contra after
      have grown := daysBeforeMonth_mono (yearOf day) (show monthOf day + 1 ≤ earlier + 1 by omega)
      rw [daysBeforeMonth_succ _ positive] at grown
      rw [monthOf] at *
      omega
    have grown := daysBeforeMonth_mono (yearOf day) upTo
    omega
  refine ⟨year, ?_⟩
  rw [firstOfMonth, firstOfMonth, year, month]

example : dayNumber 1970 1 1 = 0 ∧ weekday (dayNumber 2024 2 29) = 3 ∧
    dayNumber 2023 2 29 = dayNumber 2023 3 1 := by decide

end Gregorian
