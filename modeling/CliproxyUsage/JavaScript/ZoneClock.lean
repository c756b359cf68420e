import CliproxyUsage.JavaScript.LocalDate
import CliproxyUsage.Python.ZoneWalls
import Mathlib.Data.Int.LeastGreatest
import Mathlib.Order.Bounds.Defs

/-! # The clock of a time zone

What a host shows in a zone: an ambiguous local time is that of its first pass, and a skipped one
takes the offset of before the change. `Zoned` states this for a clock without naming its zone.
-/

namespace JavaScript

open Python

namespace LocalClock

/-- The clock of a zone whose offsets and changes are whole milliseconds. -/
def ofZone (tz : Zone) : LocalClock where
  utc wall := tz.toUtc ⟨wall * 1000, false⟩ / 1000
  localTime time := (tz.localAt (time * 1000)).wall / 1000

variable (clock : LocalClock)

/-- From `at_` on, local times are `after` ahead of UTC, and until then `before`, with no other change for two days on
either side. -/
structure Changes (at_ before after : ℤ) : Prop where
  old : |before| < msPerDay
  new : |after| < msPerDay
  earlier : ∀ t, at_ - 2 * msPerDay ≤ t → t < at_ → clock.localTime t = t + before
  later : ∀ t, at_ ≤ t → t ≤ at_ + 2 * msPerDay → clock.localTime t = t + after

/-- Some time value shows the local time. -/
def Shows (wall : ℤ) : Prop := clock.localTime (clock.utc wall) = wall

instance (wall : ℤ) : Decidable (clock.Shows wall) := inferInstanceAs (Decidable (_ = _))

/-- Local times advance with time values but for changes of the offset. One that is shown denotes the first time value
that shows it, and any other takes the offset of before the change that skips it. -/
structure Zoned : Prop where
  near : ∀ t, |clock.localTime t - t| < msPerDay
  nearUtc : ∀ wall, |clock.utc wall - wall| < msPerDay
  steps : ∀ t, clock.localTime t = clock.localTime (t - 1) + 1 ∨ ∃ before after, clock.Changes t before after
  first : ∀ t, clock.Shows (clock.localTime t) ∧ clock.utc (clock.localTime t) ≤ t
  skipped : ∀ wall, clock.Shows wall ∨ ∃ at_ before after, clock.Changes at_ before after ∧
    at_ + before ≤ wall ∧ wall < at_ + after ∧ clock.utc wall = wall - before

section Zone

variable {tz : Zone}

/-- Local times of whole milliseconds are whole milliseconds. -/
private theorem localTime_ofZone (whole : tz.WholeSeconds) (t : ℤ) :
    (ofZone tz).localTime t * 1000 = (tz.localAt (t * 1000)).wall := by
  obtain ⟨k, offset⟩ := tz.offsetAt_dvd whole.offsets (t * 1000)
  simp only [ofZone, Zone.localAt, offset, microsPerSecond]
  omega

private theorem utc_ofZone (whole : tz.WholeSeconds) (wall : ℤ) :
    (ofZone tz).utc wall * 1000 = tz.toUtc ⟨wall * 1000, false⟩ := by
  obtain ⟨k, offset⟩ := tz.utcOffset_dvd whole.offsets ⟨wall * 1000, false⟩
  simp only [ofZone, Zone.toUtc, offset, microsPerSecond]
  omega

/-- A change of the zone is one of its clock. -/
private theorem changes_ofZone (whole : tz.WholeSeconds) {t : Transition} {earlier later : List Transition}
    (split : tz.transitions = earlier ++ t :: later) : ∃ at_ before after, (ofZone tz).Changes at_ before after ∧
      at_ * 1000 = t.at_ ∧ before * 1000 = offsetAfter tz.initial earlier ∧ after * 1000 = t.offset := by
  obtain ⟨bound, bound', _⟩ := Zone.bounds_around split
  have member : t ∈ tz.transitions := by simp [split]
  obtain ⟨at_, instant⟩ := whole.changes t member
  obtain ⟨after, offset⟩ := whole.offsets.2 t member
  have last : tz.offsetAt (t.at_ - 1) = offsetAfter tz.initial earlier :=
    Zone.offsetAt_before split (by rw [microsPerDay, microsPerSecond]; omega) (by omega)
  obtain ⟨before, offset'⟩ := tz.offsetAt_dvd whole.offsets (t.at_ - 1)
  rw [last] at offset'
  rw [abs_lt] at bound bound'
  simp only [microsPerDay, microsPerSecond] at bound bound' instant offset offset'
  refine ⟨at_ * 1000, before * 1000, after * 1000, ⟨?_, ?_, ?_, ?_⟩, by omega, by omega, by omega⟩
  · rw [abs_lt, msPerDay]
    omega
  · rw [abs_lt, msPerDay]
    omega
  · intro u recent ahead
    have shown := localTime_ofZone whole u
    rw [msPerDay] at recent
    rw [Zone.localAt, Zone.offsetAt_before split (by rw [microsPerDay, microsPerSecond]; omega) (by omega)] at shown
    simp only at shown
    omega
  · intro u passed soon
    have shown := localTime_ofZone whole u
    rw [msPerDay] at soon
    rw [Zone.localAt, Zone.offsetAt_after split (by omega) (by rw [microsPerDay, microsPerSecond]; omega)] at shown
    simp only at shown
    omega

/-- The clock of a zone keeps the rules. -/
theorem zoned_ofZone (whole : tz.WholeSeconds) : (ofZone tz).Zoned where
  near t := by
    have shown := localTime_ofZone whole t
    have bounds := tz.localAt_bounds (t * 1000)
    rw [microsPerDay, microsPerSecond] at bounds
    rw [abs_lt, msPerDay]
    omega
  nearUtc wall := by
    have denoted := utc_ofZone whole wall
    have bounds := tz.toUtc_bounds ⟨wall * 1000, false⟩
    simp only [microsPerDay, microsPerSecond] at bounds
    rw [abs_lt, msPerDay]
    omega
  steps t := by
    have shown := localTime_ofZone whole t
    have shown' := localTime_ofZone whole (t - 1)
    by_cases same : tz.offsetAt (t * 1000) = tz.offsetAt ((t - 1) * 1000)
    · left
      simp only [Zone.localAt, same] at shown shown'
      omega
    · right
      obtain ⟨earlier, change, later, split, after, upTo⟩ := Zone.exists_change (by omega) same
      obtain ⟨at_, before, offset, changes, instant, _⟩ := changes_ofZone whole split
      obtain rfl : at_ = t := by omega
      exact ⟨before, offset, changes⟩
  first t := by
    have shown := localTime_ofZone whole t
    have denoted := utc_ofZone whole ((ofZone tz).localTime t)
    have upTo := @Zone.toUtc_le_of_shown tz _ _ shown.symm
    have again := @Zone.localAt_toUtc tz _ _ shown.symm
    have shown' := localTime_ofZone whole ((ofZone tz).utc ((ofZone tz).localTime t))
    rw [← denoted] at upTo again
    refine ⟨?_, by omega⟩
    rw [Shows]
    omega
  skipped wall := by
    have denoted := utc_ofZone whole wall
    rcases tz.shown_or_skipped (wall * 1000) with shows_ | ⟨earlier, t, later, split, resolved, past, under⟩
    · left
      have shown := localTime_ofZone whole ((ofZone tz).utc wall)
      rw [denoted, shows_] at shown
      rw [Shows]
      omega
    · right
      obtain ⟨at_, before, after, changes, instant, old, new⟩ := changes_ofZone whole split
      exact ⟨at_, before, after, changes, by omega, by omega, by omega⟩

end Zone

/-- A skipped local time shows as many milliseconds later as the change skips. -/
theorem Changes.localTime_skipped {clock : LocalClock} {at_ before after wall : ℤ}
    (changes : clock.Changes at_ before after) (past : at_ + before ≤ wall)
    (under : wall < at_ + after) (resolved : clock.utc wall = wall - before) :
    clock.localTime (clock.utc wall) = wall - before + after := by
  have old := abs_lt.mp changes.old
  have new := abs_lt.mp changes.new
  rw [resolved]
  exact changes.later _ (by omega) (by omega)

namespace Zoned

variable {clock} (zoned : clock.Zoned) {at_ before after wall m t : ℤ}

include zoned

/-- No time value shows what a change skips. -/
theorem localTime_ne (changes : clock.Changes at_ before after) (past : at_ + before ≤ wall) (under : wall < at_ + after)
    (t : ℤ) : clock.localTime t ≠ wall := by
  have near := abs_lt.mp (zoned.near t)
  have old := abs_lt.mp changes.old
  have new := abs_lt.mp changes.new
  rcases lt_or_ge t at_ with ahead | passed
  · by_cases recent : at_ - 2 * msPerDay ≤ t
    · have shown := changes.earlier t recent ahead
      omega
    · omega
  · by_cases soon : t ≤ at_ + 2 * msPerDay
    · have shown := changes.later t passed soon
      omega
    · omega

theorem shows_iff : clock.Shows wall ↔ ∃ t, clock.localTime t = wall :=
  ⟨fun shows_ => ⟨_, shows_⟩, fun ⟨t, shown⟩ => shown ▸ (zoned.first t).1⟩

/-- A time value that shows a local time is not before the one that it denotes. -/
theorem utc_le (shown : clock.localTime t = wall) : clock.utc wall ≤ t := shown ▸ (zoned.first t).2

/-- Until a local time is first shown, the clock shows earlier ones. -/
theorem localTime_lt (shows_ : clock.Shows m) (ahead : t < clock.utc m) : clock.localTime t < m := by
  by_contra reached
  -- The first time value that shows at least `m` shows more, so a change skips `m`.
  have bounded : ∃ least, ∀ u, m ≤ clock.localTime u → least ≤ u := by
    refine ⟨m - msPerDay, fun u above => ?_⟩
    have near := abs_lt.mp (zoned.near u)
    omega
  obtain ⟨u, above, least⟩ := Int.exists_least_of_bdd bounded ⟨t, not_lt.mp reached⟩
  have earliest := least t (not_lt.mp reached)
  have below : clock.localTime (u - 1) < m := by
    by_contra above'
    have := least (u - 1) (not_lt.mp above')
    omega
  have other : clock.localTime u ≠ m := fun shown => by
    have := zoned.utc_le shown
    omega
  rcases zoned.steps u with next | ⟨before, after, changes⟩
  · omega
  · have old := changes.earlier (u - 1) (by rw [msPerDay]; omega) (by omega)
    have new := changes.later u le_rfl (by rw [msPerDay]; omega)
    exact zoned.localTime_ne changes (show u + before ≤ m by omega) (by omega) (clock.utc m) shows_

/-- Shown local times denote time values in their order. -/
theorem utc_lt_utc (shows_ : clock.Shows wall) (shows_' : clock.Shows m) : clock.utc wall < clock.utc m ↔ wall < m := by
  rcases lt_trichotomy wall m with less | rfl | more
  · refine iff_of_true ?_ less
    by_contra order
    rcases (not_lt.mp order).lt_or_eq with ahead | same
    · have under := zoned.localTime_lt shows_ ahead
      rw [shows_'] at under
      omega
    · rw [Shows] at shows_ shows_'
      rw [← same, shows_'] at shows_
      omega
  · simp
  · refine iff_of_false ?_ (not_lt.mpr more.le)
    intro ahead
    have under := zoned.localTime_lt shows_' ahead
    rw [shows_] at under
    omega

/-- Just before a local time is first shown, the clock shows the last one before it. -/
theorem isGreatest_before (shows_ : clock.Shows m) :
    IsGreatest {w | (∃ t, clock.localTime t = w) ∧ w < m} (clock.localTime (clock.utc m - 1)) := by
  refine ⟨⟨⟨_, rfl⟩, zoned.localTime_lt shows_ (by omega)⟩, ?_⟩
  rintro w ⟨⟨t, rfl⟩, under⟩
  rcases zoned.steps (clock.utc m) with next | ⟨before, after, changes⟩
  · rw [shows_] at next
    omega
  · have old := changes.earlier (clock.utc m - 1) (by rw [msPerDay]; omega) (by omega)
    have new := changes.later (clock.utc m) le_rfl (by rw [msPerDay]; omega)
    rw [shows_] at new
    by_contra later
    exact zoned.localTime_ne changes (show clock.utc m + before ≤ clock.localTime t by omega) (by omega) t rfl

end Zoned

end LocalClock

end JavaScript
