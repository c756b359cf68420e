import CliproxyUsage.Frontend.Range
import CliproxyUsage.JavaScript.ZoneClock

/-! # Local texts and the minutes that they name

A printed time reads back as the start of its minute, on the day that it shows, when the year has four
digits and is not one of the first hundred.
-/

namespace CliproxyUsage.Frontend

open JavaScript Gregorian

theorem expect_cons (c : Char) (rest : List Char) : expect c (c :: rest) = some rest := if_pos rfl

/-- A number that fits its width has that many digits. -/
theorem fixed_leadingZeros {width n : ℕ} (fits : n < 10 ^ width) (rest : List Char) :
    Digits.fixed width (leadingZeros width n ++ rest) = some (n, rest) := by
  rw [leadingZeros, if_pos fits]
  exact Digits.fixed_pad fits rest

/-- The fields of a text in their widths. -/
theorem localInput_fields {y mo d h mi : ℕ} (year : y < 10 ^ 4) (month : mo < 10 ^ 2) (date : d < 10 ^ 2)
    (hours : h < 10 ^ 2) (minutes : mi < 10 ^ 2) :
    localInput (String.ofList (leadingZeros 4 y ++ '-' :: leadingZeros 2 mo ++ '-' :: leadingZeros 2 d ++
      'T' :: leadingZeros 2 h ++ ':' :: leadingZeros 2 mi)) = some (y, mo, d, h, mi) := by
  have last := fixed_leadingZeros minutes []
  rw [List.append_nil] at last
  simp only [localInput, String.toList_ofList, List.append_assoc, List.cons_append, fixed_leadingZeros year,
    fixed_leadingZeros month, fixed_leadingZeros date, fixed_leadingZeros hours, last, expect_cons, Option.bind_eq_bind,
    Option.bind_some, if_true]

/-- A year of five or more digits is not read. -/
theorem localInput_long {y : ℕ} (long : 10 ^ 4 ≤ y) (rest : List Char) :
    localInput (String.ofList (leadingZeros 4 y ++ rest)) = none := by
  have many : 4 ≤ Nat.log 10 y := Nat.le_log_of_pow_le (by decide) long
  have length := Digits.length_pad (Nat.log 10 y + 1) y
  rw [leadingZeros, if_neg (not_lt.mpr long)]
  have digits {c : Char} (member : c ∈ Digits.pad (Nat.log 10 y + 1) y) := Digits.isDigit_of_mem_pad member
  generalize Digits.pad (Nat.log 10 y + 1) y = written at *
  match written, length with
  | a :: b :: c :: d :: e :: more, _ =>
    have fifth : e ≠ '-' := by
      rintro rfl
      exact absurd (digits (c := '-') (by simp)) (by decide)
    simp [localInput, Digits.fixed, Digits.fixedFrom, digits, expect, fifth]
  | [], length | [_], length | [_, _], length | [_, _, _], length | [_, _, _, _], length =>
    simp only [List.length_nil, List.length_cons] at length
    omega

variable {clock : LocalClock} {t : ℤ}

/-- The local time at the start of its minute. -/
def minuteWall (clock : LocalClock) (t : ℤ) : ℤ := clock.localTime t - clock.localTime t % msPerMinute

/-- The fields of a printed time. -/
private theorem fields_bounds (t : ℤ) : (clock.getMonth t + 1).toNat = monthOf (clock.day t) ∧
    1 ≤ monthOf (clock.day t) ∧ monthOf (clock.day t) ≤ 12 ∧
    ((clock.getDate t).toNat : ℤ) = dayOfMonth (clock.day t) ∧ (clock.getDate t).toNat < 10 ^ 2 ∧
    (clock.getHours t).toNat ≤ 23 ∧ (clock.getMinutes t).toNat ≤ 59 ∧
    clock.day t * msPerDay + makeTime (clock.getHours t).toNat (clock.getMinutes t).toNat = minuteWall clock t := by
  obtain ⟨first, last, early, late⟩ := Gregorian.fields_bounds (clock.day t)
  have length : daysInMonth (yearOf (clock.day t)) (monthOf (clock.day t)) ≤ 31 := by
    rw [daysInMonth.eq_def]
    split <;> (try split) <;> decide
  simp only [LocalClock.getMonth, LocalClock.getDate, LocalClock.getHours, LocalClock.getMinutes, LocalClock.day, makeTime,
    minuteWall, msPerDay, msPerHour, msPerMinute] at *
  omega

/-- What is parsed of a printed time, when its year fits. -/
private theorem parse_eq (t : ℤ) (fits : eraYear (yearOf (clock.day t)) < 10 ^ 4) :
    parseLocalInput clock (toLocalInput clock t) =
      (clock.newDate (eraYear (yearOf (clock.day t))) (monthOf (clock.day t) - 1) (dayOfMonth (clock.day t))
        (clock.getHours t).toNat (clock.getMinutes t).toNat).bind fun date =>
      if clock.getFullYear date = eraYear (yearOf (clock.day t)) ∧ clock.getMonth date = monthOf (clock.day t) - 1 ∧
        clock.getDate date = dayOfMonth (clock.day t) then some date else none := by
  obtain ⟨month, _, short, date, small, hours, minutes, _⟩ := @fields_bounds clock t
  have read := localInput_fields fits (show (clock.getMonth t + 1).toNat < 10 ^ 2 by omega) small
    (show (clock.getHours t).toNat < 10 ^ 2 by omega) (show (clock.getMinutes t).toNat < 10 ^ 2 by omega)
  have clean : ¬((clock.getHours t).toNat > 23 ∨ (clock.getMinutes t).toNat > 59) := by omega
  rw [parseLocalInput, toLocalInput, LocalClock.getFullYear, read]
  simp only [Option.bind_eq_bind, Option.bind_some, if_neg clean, month, date]
  refine congrArg _ (funext fun p => ?_)
  simp only [ne_eq, ← not_and_or, ite_not]

/-- A date has the fields of its day only. -/
private theorem same_fields_iff (p day : ℤ) : clock.getFullYear p = yearOf day ∧ clock.getMonth p = monthOf day - 1 ∧
    clock.getDate p = dayOfMonth day ↔ clock.day p = day := by
  constructor
  · rintro ⟨year, month, date⟩
    have same : monthOf (clock.day p) = monthOf day := by
      rw [LocalClock.getMonth] at month
      omega
    rw [← dayNumber_fields (clock.day p), ← dayNumber_fields day, ← same, ← date, ← year]
    rfl
  · rintro rfl
    exact ⟨rfl, rfl, rfl⟩

/-- The days of the years 100 to 9999. -/
theorem day_bounds {day : ℤ} (early : 100 ≤ yearOf day) (late : yearOf day ≤ 9999) : -700000 ≤ day ∧ day ≤ 3000000 := by
  constructor
  · by_contra before
    have earlier : yearOf day ≤ yearOf (-700000) := yearOf_mono (by omega)
    have year : yearOf (-700000) = 53 := by decide
    omega
  · by_contra after
    have later : yearOf 3000000 ≤ yearOf day := yearOf_mono (by omega)
    have year : yearOf 3000000 = 10183 := by decide
    omega

/-- Times near the years 100 to 9999 are time values. -/
theorem timeClip_near {time day : ℤ} (early : 100 ≤ yearOf day) (late : yearOf day ≤ 9999)
    (near : |time - day * msPerDay| ≤ 10 * msPerDay) : timeClip time = some time := by
  obtain ⟨least, most⟩ := day_bounds early late
  apply if_pos
  rw [abs_le, msPerDay] at *
  omega

/-- A printed time of a four-digit year reads back as the start of its minute, if that is on its day. -/
theorem parse_toLocalInput (zoned : clock.Zoned) (early : 100 ≤ yearOf (clock.day t)) (late : yearOf (clock.day t) ≤ 9999) :
    parseLocalInput clock (toLocalInput clock t) =
      if clock.day (clock.utc (minuteWall clock t)) = clock.day t then some (clock.utc (minuteWall clock t)) else none := by
  have year : (eraYear (yearOf (clock.day t)) : ℤ) = yearOf (clock.day t) := by
    rw [eraYear, if_pos (by omega)]
    omega
  obtain ⟨_, first, last, _, _, _, _, minute⟩ := @fields_bounds clock t
  have made : clock.newDate (yearOf (clock.day t)) (monthOf (clock.day t) - 1) (dayOfMonth (clock.day t))
      (clock.getHours t).toNat (clock.getMinutes t).toNat = some (clock.utc (minuteWall clock t)) := by
    have month : ((monthOf (clock.day t) : ℤ) - 1) / 12 = 0 ∧
        (((monthOf (clock.day t) : ℤ) - 1) % 12).toNat + 1 = monthOf (clock.day t) := by omega
    have modern : ¬(0 ≤ yearOf (clock.day t) ∧ yearOf (clock.day t) ≤ 99) := by omega
    rw [LocalClock.newDate, makeFullYear, if_neg modern, makeDay, month.1, month.2, add_zero, dayNumber_fields, minute]
    apply timeClip_near early late
    have near := zoned.nearUtc (minuteWall clock t)
    simp only [abs_lt, abs_le, minuteWall, LocalClock.day, msPerDay, msPerMinute] at near ⊢
    omega
  rw [parse_eq t (by omega), year, made, Option.bind_some]
  simp only [same_fields_iff]

/-- Two-digit years read as years of the twentieth century. -/
private theorem year_of_newDate (zoned : clock.Zoned) {y month date h mi : ℕ} (short : y < 100)
    (first : 1 ≤ month) (last : month ≤ 12) {p : ℤ} (made : clock.newDate y (month - 1) date h mi = some p) :
    clock.getFullYear p ≠ y := by
  have century : 0 ≤ (y : ℤ) ∧ (y : ℤ) ≤ 99 := by omega
  have fields : ((month : ℤ) - 1) / 12 = 0 ∧ (((month : ℤ) - 1) % 12).toNat + 1 = month := by omega
  rw [LocalClock.newDate, makeFullYear, if_pos century, makeDay, fields.1, fields.2, add_zero, timeClip] at made
  split at made
  · injection made with same
    have started : daysBeforeYear 1900 ≤ daysBeforeYear (1900 + y) := daysBeforeYear_mono (by omega)
    have value : daysBeforeYear 1900 = 693595 := by decide
    have late : -26000 ≤ clock.day p := by
      have near := zoned.nearUtc ((dayNumber (1900 + y) month 0 + date) * msPerDay + makeTime h mi)
      have near' := zoned.near p
      rw [same] at near
      simp only [abs_lt, dayNumber, makeTime, LocalClock.day, msPerDay, msPerHour, msPerMinute] at near near' ⊢
      omega
    have year : yearOf (-26000) ≤ yearOf (clock.day p) := yearOf_mono late
    have value' : yearOf (-26000) = 1898 := by decide
    rw [LocalClock.getFullYear]
    omega
  · cases made

/-- A printed time that reads back has a four-digit year, or else one before 1 AD, and then it reads as one after. -/
theorem years_of_parse (zoned : clock.Zoned) {p : ℤ} (read : parseLocalInput clock (toLocalInput clock t) = some p) :
    100 ≤ yearOf (clock.day t) ∧ yearOf (clock.day t) ≤ 9999 ∨
      yearOf (clock.day t) ≤ 0 ∧ 0 < yearOf (clock.day p) := by
  by_cases fits : eraYear (yearOf (clock.day t)) < 10 ^ 4
  · rw [parse_eq t fits, Option.bind_eq_some_iff] at read
    obtain ⟨date, made, kept⟩ := read
    obtain ⟨_, first, last, day, _⟩ := @fields_bounds clock t
    split at kept
    · next same =>
      injection kept with kept
      subst kept
      obtain ⟨year, _⟩ := same
      rw [← day] at made
      by_cases positive : 0 < yearOf (clock.day t)
      · left
        rw [eraYear, if_pos positive] at fits made year
        have long : ¬(yearOf (clock.day t)).toNat < 100 := fun short =>
          year_of_newDate zoned short first last made year
        omega
      · right
        rw [eraYear, if_neg positive] at year
        have same : clock.getFullYear date = yearOf (clock.day date) := rfl
        omega
    · cases kept
  · rw [toLocalInput, LocalClock.getFullYear, List.append_assoc, List.append_assoc, List.append_assoc] at read
    rw [parseLocalInput, localInput_long (not_lt.mp fits)] at read
    cases read

private theorem fixed_lt {n v : ℕ} {chars rest : List Char} (some_ : n ≠ 0)
    (read : Digits.fixed n chars = some (v, rest)) : v < 10 ^ n := by
  obtain ⟨digits, rfl, valued⟩ := Digits.fixed_value some_ read
  obtain ⟨other, same, length, -⟩ := Digits.fixed_eq_some read
  obtain rfl := List.append_cancel_right same
  exact length ▸ (Digits.value?_eq_some valued).2.2

private theorem localInput_year {s : String} {y mo d h mi : ℕ} (read : localInput s = some (y, mo, d, h, mi)) :
    y < 10 ^ 4 := by
  simp only [localInput, Option.bind_eq_bind, Option.bind_eq_some_iff] at read
  obtain ⟨⟨year, rest⟩, first, rest', -, more⟩ := read
  have small := fixed_lt (by decide) first
  repeat obtain ⟨_, -, more⟩ := more
  split at more
  · cases more
    exact small
  · cases more

/-- The years of a text that names a date. -/
theorem years_of_input (zoned : clock.Zoned) {s : String} {p : ℤ} (read : parseLocalInput clock s = some p) :
    100 ≤ yearOf (clock.day p) ∧ yearOf (clock.day p) ≤ 9999 := by
  simp only [parseLocalInput, Option.bind_eq_bind, Option.bind_eq_some_iff] at read
  obtain ⟨⟨y, mo, d, h, mi⟩, fields, read⟩ := read
  have small := localInput_year fields
  dsimp only at read
  split at read
  · cases read
  · obtain ⟨date, made, kept⟩ := Option.bind_eq_some_iff.mp read
    split at kept
    · cases kept
    · next same =>
      obtain rfl := Option.some.inj kept
      simp only [not_or, not_not, ne_eq] at same
      have year : yearOf (clock.day date) = y := same.1
      refine ⟨?_, by omega⟩
      by_contra short
      obtain ⟨-, first, last, -⟩ := @fields_bounds clock date
      have month : (monthOf (clock.day date) : ℤ) - 1 = mo - 1 := same.2.1
      exact year_of_newDate zoned (by omega) (by omega) (by omega) made year

end CliproxyUsage.Frontend
