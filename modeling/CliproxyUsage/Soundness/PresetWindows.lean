import CliproxyUsage.Frontend.WindowQuery
import CliproxyUsage.Proofs.LocalInput
import CliproxyUsage.Soundness.DayRange

/-! # Windows in order

A range of the dashboard starts by its end in every zone whose days and months start at a midnight or at a
jump from there, and in no other. A preset always resolves.
-/

namespace CliproxyUsage.Frontend

open JavaScript Gregorian

section Statement

variable (clock : LocalClock)

/-- The clock shows the midnight of a day, or jumps from the moment before it. -/
def StartsAtMidnight (day : ℤ) : Prop := clock.Shows (day * msPerDay) ∨ clock.Shows (day * msPerDay - 1)

/-- Years that are neither taken for those of the twentieth century nor longer than four digits. -/
def InCalendar (now : ℤ) : Prop := 100 ≤ yearOf (clock.day now) ∧ yearOf (clock.day now) ≤ 9999

end Statement

variable {clock : LocalClock} {now day at_ before after : ℤ}

/-- From a midnight on that is shown or jumped from, no time value is before the one it denotes. -/
private theorem utc_le_of_starts (zoned : clock.Zoned) (starts : StartsAtMidnight clock day)
    (reached : day ≤ clock.day now) : clock.utc (day * msPerDay) ≤ now := by
  have past : day * msPerDay ≤ clock.localTime now := by
    simp only [LocalClock.day, msPerDay] at reached ⊢
    omega
  by_cases shows_ : clock.Shows (day * msPerDay)
  · by_contra ahead
    have under := zoned.localTime_lt shows_ (not_le.mp ahead)
    omega
  · obtain ⟨at_, before, after, changes, first, last, resolved⟩ := (zoned.skipped _).resolve_left shows_
    -- The jump starts at the midnight, since the moment before it is shown.
    have same : at_ + before = day * msPerDay := by
      by_contra inside
      exact zoned.localTime_ne changes (by omega) (by omega) _ (starts.resolve_left shows_)
    have near := abs_lt.mp (zoned.near now)
    have old := abs_lt.mp changes.old
    by_contra ahead
    have shown := changes.earlier now (by omega) (by omega)
    omega

/-- A midnight that is jumped over from before is denoted by a time value after the jump, which is on a later local
time. -/
private theorem exists_before_start (zoned : clock.Zoned) (skipped : ¬StartsAtMidnight clock day) :
    ∃ at_, at_ < clock.utc (day * msPerDay) ∧ day ≤ clock.day at_ ∧
      ∀ t, day ≤ clock.day t → clock.day at_ ≤ clock.day t := by
  rw [StartsAtMidnight, not_or] at skipped
  obtain ⟨at_, before, after, changes, first, last, resolved⟩ := (zoned.skipped _).resolve_left skipped.1
  have strict : at_ + before < day * msPerDay := by
    rcases first.lt_or_eq with inside | starts
    · exact inside
    · have shown := changes.earlier (at_ - 1) (by rw [msPerDay]; omega) (by omega)
      exact absurd (zoned.shows_iff.mpr ⟨at_ - 1, by omega⟩) skipped.2
  have shown := changes.later at_ le_rfl (by rw [msPerDay]; omega)
  refine ⟨at_, by omega, ?_, fun t reached => ?_⟩
  · rw [LocalClock.day, shown]
    exact (Int.le_ediv_iff_mul_le (by decide)).mpr (by omega)
  · rw [LocalClock.day, LocalClock.day, shown]
    refine Int.ediv_le_ediv (by decide) ?_
    by_contra inside
    have past : day * msPerDay ≤ clock.localTime t := (Int.le_ediv_iff_mul_le (by decide)).mp reached
    exact zoned.localTime_ne changes (by omega) (not_le.mp inside) t rfl

/-- The first day of the month before that of a day. -/
private def firstOfMonthBefore (day : ℤ) : ℤ :=
  dayNumber (yearOf day + ((monthOf day : ℤ) - 2) / 12) ((((monthOf day : ℤ) - 2) % 12).toNat + 1) 1

private theorem monthStart_eq (early : 100 ≤ yearOf (clock.day now)) (months : ℤ) :
    monthStart clock now months = timeClip (clock.utc (dayNumber
      (yearOf (clock.day now) + ((monthOf (clock.day now) : ℤ) - 1 + months) / 12)
      ((((monthOf (clock.day now) : ℤ) - 1 + months) % 12).toNat + 1) 1 * msPerDay)) := by
  rw [monthStart, LocalClock.newDate, makeFullYear, LocalClock.getFullYear, if_neg (by omega), LocalClock.getMonth,
    makeTime, makeDay]
  simp only [zero_mul, add_zero]
  refine congrArg (fun number => timeClip (clock.utc (number * msPerDay))) ?_
  rw [dayNumber, dayNumber]
  push_cast
  ring

/-- The midnights that the presets start and end at are time values. -/
private theorem starts_eq (zoned : clock.Zoned) (dated : InCalendar clock now) :
    clock.startOfDay now = some (clock.utc (clock.day now * msPerDay)) ∧
      monthStart clock now 0 = some (clock.utc (firstOfMonth (clock.day now) * msPerDay)) ∧
      monthStart clock now (-1) = some (clock.utc (firstOfMonthBefore (clock.day now) * msPerDay)) := by
  obtain ⟨early, late⟩ := dated
  obtain ⟨least, most⟩ := day_bounds early late
  obtain ⟨first, last, _, within⟩ := Gregorian.fields_bounds (clock.day now)
  have length := daysInMonth_le (yearOf (clock.day now)) (monthOf (clock.day now))
  have split := firstOfMonth_add (clock.day now)
  have clipped {number : ℤ} (lower : -800000 ≤ number) (upper : number ≤ 3000000) :
      timeClip (clock.utc (number * msPerDay)) = some (clock.utc (number * msPerDay)) := by
    have near := abs_lt.mp (zoned.nearUtc (number * msPerDay))
    apply if_pos
    rw [abs_le, msPerDay] at *
    omega
  have thisMonth : dayNumber (yearOf (clock.day now) + ((monthOf (clock.day now) : ℤ) - 1 + 0) / 12)
      ((((monthOf (clock.day now) : ℤ) - 1 + 0) % 12).toNat + 1) 1 = firstOfMonth (clock.day now) := by
    have year : ((monthOf (clock.day now) : ℤ) - 1 + 0) / 12 = 0 := by omega
    have month : (((monthOf (clock.day now) : ℤ) - 1 + 0) % 12).toNat + 1 = monthOf (clock.day now) := by omega
    rw [year, month, add_zero, firstOfMonth]
  have lastMonth : dayNumber (yearOf (clock.day now) + ((monthOf (clock.day now) : ℤ) - 1 + -1) / 12)
      ((((monthOf (clock.day now) : ℤ) - 1 + -1) % 12).toNat + 1) 1 = firstOfMonthBefore (clock.day now) := by
    rw [firstOfMonthBefore, show (monthOf (clock.day now) : ℤ) - 1 + -1 = monthOf (clock.day now) - 2 by ring]
  have before := firstOfMonth_before (clock.day now)
  have started : -800000 ≤ firstOfMonthBefore (clock.day now) := by
    have years := daysBeforeYear_mono
      (show 99 ≤ yearOf (clock.day now) + ((monthOf (clock.day now) : ℤ) - 2) / 12 by omega)
    have first : daysBeforeYear 99 = 35794 := by decide
    rw [firstOfMonthBefore, dayNumber]
    omega
  refine ⟨clipped (by omega) most, ?_, ?_⟩
  · rw [monthStart_eq early, thisMonth]
    exact clipped (by omega) (by omega)
  · rw [monthStart_eq early, lastMonth]
    refine clipped started ?_
    rw [firstOfMonthBefore]
    omega

/-- What a preset resolves to. -/
private def windowOf (clock : LocalClock) (now : ℤ) (id : PresetId) : RangeWindow :=
  match id with
  | .last24h => ⟨some (now - msPerDay), now⟩
  | .last7d => ⟨some (now - 7 * msPerDay), now⟩
  | .last30d => ⟨some (now - 30 * msPerDay), now⟩
  | .last90d => ⟨some (now - 90 * msPerDay), now⟩
  | .today => ⟨some (clock.utc (clock.day now * msPerDay)), now⟩
  | .thisMonth => ⟨some (clock.utc (firstOfMonth (clock.day now) * msPerDay)), now⟩
  | .lastMonth => ⟨some (clock.utc (firstOfMonthBefore (clock.day now) * msPerDay)),
      clock.utc (firstOfMonth (clock.day now) * msPerDay)⟩
  | .all => ⟨none, now⟩

private theorem resolveWindow_preset (zoned : clock.Zoned) (dated : InCalendar clock now) (id : PresetId) :
    resolveWindow clock now (.preset id) = some (windowOf clock now id) := by
  obtain ⟨today, thisMonth, lastMonth⟩ := starts_eq zoned dated
  cases id <;> simp [resolveWindow, presetWindow, rolling, windowOf, today, thisMonth, lastMonth]

/-- A custom range is in order, and so is every preset but those from the midnight of a day or month until now. -/
private theorem ordered_iff (zoned : clock.Zoned) (dated : InCalendar clock now) :
    (∀ sel window, resolveWindow clock now sel = some window → window.Ordered) ↔
      clock.utc (clock.day now * msPerDay) ≤ now ∧ clock.utc (firstOfMonth (clock.day now) * msPerDay) ≤ now := by
  constructor
  · intro ordered
    exact ⟨ordered _ _ (resolveWindow_preset zoned dated .today) _ rfl,
      ordered _ _ (resolveWindow_preset zoned dated .thisMonth) _ rfl⟩
  · rintro ⟨today, thisMonth⟩ sel window resolved
    cases sel with
    | custom start end_ =>
      simp only [resolveWindow, Option.bind_eq_bind, Option.bind_eq_some_iff] at resolved
      obtain ⟨first, _, last, _, made⟩ := resolved
      split at made
      · cases made
      · next order =>
        cases made
        intro start picked
        obtain rfl := Option.some.inj picked
        exact (not_le.mp order).le
    | preset id =>
      rw [resolveWindow_preset zoned dated] at resolved
      cases resolved
      rintro start picked
      have before := firstOfMonth_before (clock.day now)
      have first := abs_lt.mp (zoned.nearUtc (firstOfMonth (clock.day now) * msPerDay))
      have earlier := abs_lt.mp (zoned.nearUtc (firstOfMonthBefore (clock.day now) * msPerDay))
      rw [firstOfMonthBefore] at earlier
      cases id <;> simp only [windowOf, Option.mem_def, Option.some.injEq, reduceCtorEq, msPerDay, firstOfMonthBefore] at * <;>
        omega

/-- Every preset resolves. All ranges resolve to windows in order exactly when each day that the clock reaches, and the first
day of its month, starts at a midnight that the clock shows or jumps from. -/
theorem ranges_in_order_iff (tz : Python.Zone) (whole : tz.WholeSeconds) :
    (∀ now, InCalendar (.ofZone tz) now → ∀ id, ∃ window, resolveWindow (.ofZone tz) now (.preset id) = some window) ∧
    ((∀ now, InCalendar (.ofZone tz) now → ∀ sel window, resolveWindow (.ofZone tz) now sel = some window →
      window.Ordered) ↔
    ∀ now, InCalendar (.ofZone tz) now → StartsAtMidnight (.ofZone tz) ((LocalClock.ofZone tz).day now) ∧
      StartsAtMidnight (.ofZone tz) (firstOfMonth ((LocalClock.ofZone tz).day now))) := by
  have zoned := LocalClock.zoned_ofZone whole
  refine ⟨fun now dated id => ⟨_, resolveWindow_preset zoned dated id⟩, ?_⟩
  constructor
  · intro ordered now dated
    -- At the jump over a midnight, the range from that midnight on has not started yet.
    have kept {day : ℤ} (upTo : firstOfMonth ((LocalClock.ofZone tz).day now) ≤ day)
        (reached : day ≤ (LocalClock.ofZone tz).day now)
        (named : day = (LocalClock.ofZone tz).day now ∨ day = firstOfMonth ((LocalClock.ofZone tz).day now)) :
        StartsAtMidnight (.ofZone tz) day := by
      by_contra skipped
      obtain ⟨at_, ahead, later, least⟩ := exists_before_start zoned skipped
      obtain ⟨year, month⟩ := month_between (upTo.trans later) (least now reached)
      have dated' : InCalendar (.ofZone tz) at_ := by rwa [InCalendar, year]
      obtain ⟨today, thisMonth⟩ := (ordered_iff zoned dated').mp (ordered at_ dated')
      rcases named with rfl | rfl
      · rw [(least now reached).antisymm later] at today
        omega
      · rw [month] at thisMonth
        omega
    have first := firstOfMonth_le ((LocalClock.ofZone tz).day now)
    exact ⟨kept first le_rfl (.inl rfl), kept le_rfl first (.inr rfl)⟩
  · intro starts now dated
    obtain ⟨day, month⟩ := starts now dated
    exact (ordered_iff zoned dated).mpr
      ⟨utc_le_of_starts zoned day le_rfl, utc_le_of_starts zoned month (firstOfMonth_le _)⟩

/-- Clocks went from half past eleven in the evening of 30 March 1919 to half past midnight. -/
def toronto : Python.Zone :=
  ⟨-5 * Python.microsPerHour, [⟨-1601753400000000, -4 * Python.microsPerHour⟩], by decide, by decide⟩

/-- In the first half hour of that day, the range of today ends before it starts. -/
theorem ranges_in_order_toronto :
    ¬∀ now, InCalendar (.ofZone toronto) now → ∀ sel window, resolveWindow (.ofZone toronto) now sel = some window →
      window.Ordered := by
  rw [(ranges_in_order_iff toronto ⟨⟨by decide, by decide⟩, by decide⟩).2]
  intro starts
  exact absurd (starts (-1601753400000) ⟨by decide, by decide⟩).1 (by rw [StartsAtMidnight]; decide)

end CliproxyUsage.Frontend
