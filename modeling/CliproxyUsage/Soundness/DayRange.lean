import CliproxyUsage.Proofs.LocalInput

/-! # Picks of calendar days

A pick of days is cut to minutes, printed, and read back. It names the same days when its texts have
four-digit years, the last day has a midnight, and the next one has a midnight or a jump that starts
there; an end that is capped at now needs a minute after the first of the last day.
-/

namespace CliproxyUsage.Frontend

open JavaScript Gregorian

section Statement

variable (clock : LocalClock) (first last now : ℤ)

/-- The days of a pick read back from its two texts. -/
def RoundTrips : Prop :=
  ∃ start end_, dayRange clock first last now = some (start, end_) ∧ isValidCustomRange clock start end_ = true ∧
    ∃ from_ to_, rangeDays clock start end_ = some (from_, to_) ∧ clock.day from_ = clock.day first ∧
      clock.day to_ = clock.day last

/-- The start of the first day. -/
def startTime : ℤ := clock.utc (clock.day first * msPerDay)

/-- The same wall clock a day after the start of the last day. -/
def nextTime : ℤ := clock.utc (clock.localTime (clock.utc (clock.day last * msPerDay)) + msPerDay)

def endTime : ℤ := min (nextTime clock last) now

/-- The cut to minutes loses nothing at the start and at a whole end, and the clock shows the minute of a capped one:
no change of the offset ends inside these minutes. -/
structure OnMinutes : Prop where
  start : msPerMinute ∣ clock.localTime (startTime clock first)
  whole : nextTime clock last ≤ now → msPerMinute ∣ clock.localTime (nextTime clock last)
  capped : now < nextTime clock last → clock.Shows (minuteWall clock now)

/-- The first day starts on itself. A whole last day has its midnight, and the clock shows the next midnight or the
moment before it. A capped end comes in a minute after the first one of the range and of the last day, and not after
the first one of a later day. -/
structure DaysKept : Prop where
  start : clock.day (startTime clock first) = clock.day first
  whole : nextTime clock last ≤ now → clock.Shows (clock.day last * msPerDay) ∧
    (clock.Shows ((clock.day last + 1) * msPerDay) ∨ clock.Shows ((clock.day last + 1) * msPerDay - 1))
  capped : now < nextTime clock last → clock.localTime (startTime clock first) < minuteWall clock now ∧
    (∃ t, clock.day t = clock.day last ∧ clock.localTime t < minuteWall clock now) ∧
    ∀ t, clock.day last < clock.day t → minuteWall clock now ≤ clock.localTime t

/-- The minutes of the two ends, as the clock resolves them, are on their days. -/
structure MinutesKept : Prop where
  start : clock.day (startTime clock first) = clock.day first
  startMinute : clock.day (clock.utc (minuteWall clock (startTime clock first))) = clock.day first
  endMinute : clock.day (clock.utc (minuteWall clock (endTime clock last now))) = clock.day (endTime clock last now)
  order : clock.utc (minuteWall clock (startTime clock first)) < clock.utc (minuteWall clock (endTime clock last now))
  last : clock.day (clock.utc (minuteWall clock (endTime clock last now)) - 1) = clock.day last

/-- When a pick keeps its days. -/
structure KeepsDays : Prop where
  early : 100 ≤ yearOf (clock.day first)
  late : yearOf (clock.day (endTime clock last now)) ≤ 9999
  regular : OnMinutes clock first last now → DaysKept clock first last now
  cut : ¬OnMinutes clock first last now → MinutesKept clock first last now

end Statement

variable {clock : LocalClock} {first last now m wall : ℤ}

/-- A local time resolves to one that is not earlier. -/
private theorem le_localTime_utc (zoned : clock.Zoned) (wall : ℤ) : wall ≤ clock.localTime (clock.utc wall) := by
  rcases zoned.skipped wall with shows_ | ⟨at_, before, after, changes, past, under, resolved⟩
  · exact shows_.ge
  · rw [changes.localTime_skipped past under resolved]
    omega

private theorem day_minuteWall (t : ℤ) : minuteWall clock t / msPerDay = clock.day t := by
  simp only [minuteWall, LocalClock.day, msPerMinute, msPerDay]
  omega

private theorem minuteWall_eq {t : ℤ} (whole : msPerMinute ∣ clock.localTime t) : minuteWall clock t = clock.localTime t := by
  rw [minuteWall, Int.emod_eq_zero_of_dvd whole, sub_zero]

/-- An end is on the last day or after it. -/
private theorem day_endTime (zoned : clock.Zoned) (past : clock.day last ≤ clock.day now) :
    clock.day last ≤ clock.day (endTime clock last now) := by
  rw [endTime]
  rcases min_choice (nextTime clock last) now with next | capped
  · rw [next]
    have begun := le_localTime_utc zoned (clock.day last * msPerDay)
    have later := le_localTime_utc zoned (clock.localTime (clock.utc (clock.day last * msPerDay)) + msPerDay)
    rw [nextTime]
    simp only [LocalClock.day, msPerDay] at begun later ⊢
    omega
  · rwa [capped]

theorem timeClip_eq_some {time clipped : ℤ} (kept : timeClip time = some clipped) : clipped = time := by
  rw [timeClip] at kept
  split at kept
  · exact (Option.some.inj kept).symm
  · cases kept

/-- What a pick prints. -/
private theorem dayRange_eq_some {range : String × String} (ranged : dayRange clock first last now = some range) :
    range = (toLocalInput clock (startTime clock first), toLocalInput clock (endTime clock last now)) := by
  simp only [dayRange, Option.bind_eq_bind, Option.bind_eq_some_iff, Option.some.injEq] at ranged
  obtain ⟨start, started, lastStart, lastStarted, next, added, rfl⟩ := ranged
  rw [timeClip_eq_some started, timeClip_eq_some added, timeClip_eq_some lastStarted, one_mul]
  rfl

/-- Near four-digit years every pick prints. -/
private theorem dayRange_eq (zoned : clock.Zoned) (early : 100 ≤ yearOf (clock.day first))
    (ordered : clock.day first ≤ clock.day last) (late : yearOf (clock.day last) ≤ 9999) :
    dayRange clock first last now =
      some (toLocalInput clock (startTime clock first), toLocalInput clock (endTime clock last now)) := by
  have near := abs_lt.mp (zoned.nearUtc (clock.day first * msPerDay))
  have lastNear := abs_lt.mp (zoned.nearUtc (clock.day last * msPerDay))
  have lastShown := abs_lt.mp (zoned.near (clock.utc (clock.day last * msPerDay)))
  have nextNear := abs_lt.mp (zoned.nearUtc (clock.localTime (clock.utc (clock.day last * msPerDay)) + msPerDay))
  rw [msPerDay] at *
  have started : clock.startOfDay first = some (startTime clock first) := by
    apply timeClip_near early ((yearOf_mono ordered).trans late)
    rw [abs_le, msPerDay]
    omega
  have lastEarly := early.trans (yearOf_mono ordered)
  have lastStarted : clock.startOfDay last = some (clock.utc (clock.day last * msPerDay)) := by
    apply timeClip_near lastEarly late
    rw [abs_le, msPerDay]
    omega
  have added : clock.addDays (clock.utc (clock.day last * msPerDay)) 1 = some (nextTime clock last) := by
    rw [LocalClock.addDays, one_mul]
    apply timeClip_near lastEarly late
    rw [abs_le, msPerDay]
    omega
  simp only [dayRange, started, lastStarted, added, Option.bind_eq_bind, Option.bind_some]
  rfl

/-- A pick round-trips exactly when its cut minutes keep their days in four-digit years. -/
private theorem roundTrips_iff (zoned : clock.Zoned) (ordered : clock.day first ≤ clock.day last)
    (past : clock.day last ≤ clock.day now) : RoundTrips clock first last now ↔
      100 ≤ yearOf (clock.day first) ∧ yearOf (clock.day (endTime clock last now)) ≤ 9999 ∧
        MinutesKept clock first last now := by
  have order := day_endTime zoned past
  constructor
  · rintro ⟨start, end_, ranged, valid, from_, to_, covered, sameFirst, sameLast⟩
    obtain ⟨rfl, rfl⟩ := Prod.mk.inj (dayRange_eq_some ranged)
    simp only [rangeDays, Option.bind_eq_bind, Option.bind_eq_some_iff, Option.some.injEq, Prod.mk.injEq] at covered
    obtain ⟨s, read, e, read', rfl, rfl⟩ := covered
    simp only [isValidCustomRange, read, read', decide_eq_true_eq] at valid
    rw [max_eq_right (by omega)] at sameLast
    have begun := le_localTime_utc zoned (clock.day first * msPerDay)
    have startDay : clock.day first ≤ clock.day (startTime clock first) := by
      rw [startTime]
      simp only [LocalClock.day, msPerDay] at begun ⊢
      omega
    -- The first day is not before 1 AD, since the text of its start reads as a day after.
    obtain ⟨early, late⟩ : 100 ≤ yearOf (clock.day (startTime clock first)) ∧
        yearOf (clock.day (startTime clock first)) ≤ 9999 := by
      rcases years_of_parse zoned read with years | ⟨before, after⟩
      · exact years
      · have year := yearOf_mono startDay
        rw [sameFirst] at after
        omega
    rw [parse_toLocalInput zoned early late] at read
    split at read
    · next kept =>
      obtain rfl := Option.some.inj read
      rw [← kept, sameFirst] at early
      have endEarly := early.trans (yearOf_mono (ordered.trans order))
      obtain ⟨_, endLate⟩ : 100 ≤ yearOf (clock.day (endTime clock last now)) ∧
          yearOf (clock.day (endTime clock last now)) ≤ 9999 := by
        rcases years_of_parse zoned read' with years | ⟨before, _⟩
        · exact years
        · omega
      rw [parse_toLocalInput zoned endEarly endLate] at read'
      split at read'
      · next keptEnd =>
        obtain rfl := Option.some.inj read'
        exact ⟨early, endLate, kept.symm.trans sameFirst, sameFirst, keptEnd, valid, sameLast⟩
      · cases read'
    · cases read
  · rintro ⟨early, late, kept⟩
    have lastLate := (yearOf_mono order).trans late
    have startLate := (yearOf_mono ordered).trans lastLate
    have read := parse_toLocalInput (t := startTime clock first) zoned (kept.start ▸ early) (kept.start ▸ startLate)
    have read' := parse_toLocalInput zoned (early.trans (yearOf_mono (ordered.trans order))) late
    rw [if_pos (kept.startMinute.trans kept.start.symm)] at read
    rw [if_pos kept.endMinute] at read'
    refine ⟨_, _, dayRange_eq zoned early ordered lastLate, ?_, _, _, ?_, kept.startMinute, kept.last⟩
    · simp only [isValidCustomRange, read, read', decide_eq_true_eq]
      exact kept.order
    · have later := kept.order
      simp only [rangeDays, read, read', Option.bind_eq_bind, Option.bind_some, Option.some.injEq, Prod.mk.injEq, true_and]
      omega

/-- The moment before a local time is first shown is on a day when the clock shows an earlier time of that day, and
none of a later day. -/
private theorem day_before_iff (zoned : clock.Zoned) (shows_ : clock.Shows m) (day : ℤ) :
    clock.day (clock.utc m - 1) = day ↔
      (∃ t, clock.day t = day ∧ clock.localTime t < m) ∧ ∀ t, day < clock.day t → m ≤ clock.localTime t := by
  obtain ⟨⟨_, under⟩, greatest⟩ := zoned.isGreatest_before shows_
  have ordered {t u : ℤ} (below : clock.localTime t ≤ clock.localTime u) : clock.day t ≤ clock.day u :=
    Int.ediv_le_ediv (by decide) below
  constructor
  · rintro rfl
    refine ⟨⟨_, rfl, under⟩, fun t later => ?_⟩
    by_contra earlier
    exact absurd (ordered (greatest ⟨⟨t, rfl⟩, not_le.mp earlier⟩)) (not_le.mpr later)
  · rintro ⟨⟨t, rfl, earlier⟩, none_⟩
    refine (ordered (greatest ⟨⟨t, rfl⟩, earlier⟩)).antisymm' ?_
    by_contra later
    exact absurd (none_ _ (not_le.mp later)) (not_le.mpr under)

/-- A day after the start of the last day, the clock shows no time of a later day before, when the last day has a midnight
and the next one has a midnight or a jump that starts there. -/
private theorem whole_iff (zoned : clock.Zoned) :
    (∀ t, clock.day last < clock.day t → clock.localTime (nextTime clock last) ≤ clock.localTime t) ↔
      clock.Shows (clock.day last * msPerDay) ∧
        (clock.Shows ((clock.day last + 1) * msPerDay) ∨ clock.Shows ((clock.day last + 1) * msPerDay - 1)) := by
  have reached {t : ℤ} (later : clock.day last < clock.day t) : (clock.day last + 1) * msPerDay ≤ clock.localTime t := by
    simp only [LocalClock.day, msPerDay] at later ⊢
    omega
  have after {t : ℤ} (late : (clock.day last + 1) * msPerDay ≤ clock.localTime t) : clock.day last < clock.day t := by
    simp only [LocalClock.day, msPerDay] at late ⊢
    omega
  have tomorrow : clock.day last * msPerDay + msPerDay = (clock.day last + 1) * msPerDay := by ring
  constructor
  · intro none_
    have midnight : clock.Shows (clock.day last * msPerDay) := by
      apply (zoned.skipped _).resolve_right
      rintro ⟨at_, before, offset, changes, past, under, resolved⟩
      have landed := changes.localTime_skipped past under resolved
      have further := le_localTime_utc zoned (clock.localTime (clock.utc (clock.day last * msPerDay)) + msPerDay)
      -- The first time of the next day that the clock shows after the jump.
      obtain ⟨v, chosen⟩ : ∃ v, v = max ((clock.day last + 1) * msPerDay) (at_ + offset) := ⟨_, rfl⟩
      have shown := changes.later (v - offset) (by omega) (by rw [msPerDay] at *; omega)
      have earliest := none_ (v - offset) (after (by omega))
      rw [nextTime] at earliest
      rw [msPerDay] at *
      omega
    refine ⟨midnight, ?_⟩
    rw [nextTime, midnight, tomorrow] at none_
    by_contra neither
    rw [not_or] at neither
    obtain ⟨at_, before, offset, changes, past, under, resolved⟩ := (zoned.skipped _).resolve_left neither.1
    have landed := changes.localTime_skipped past under resolved
    rcases past.lt_or_eq with inside | starts
    · have shown := changes.later at_ le_rfl (by rw [msPerDay]; omega)
      have earliest := none_ at_ (after (by omega))
      omega
    · have shown := changes.earlier (at_ - 1) (by rw [msPerDay]; omega) (by omega)
      exact neither.2 (zoned.shows_iff.mpr ⟨at_ - 1, by omega⟩)
  · rintro ⟨midnight, next⟩ t later
    rw [nextTime, midnight, tomorrow]
    by_cases shows_ : clock.Shows ((clock.day last + 1) * msPerDay)
    · rw [shows_]
      exact reached later
    · obtain ⟨at_, before, offset, changes, past, under, resolved⟩ := (zoned.skipped _).resolve_left shows_
      have starts : at_ + before = (clock.day last + 1) * msPerDay := by
        by_contra inside
        exact zoned.localTime_ne changes (by omega) (by omega) _ (next.resolve_left shows_)
      rw [changes.localTime_skipped past under resolved]
      by_contra earlier
      have late := reached later
      exact zoned.localTime_ne changes (show at_ + before ≤ clock.localTime t by omega) (by omega) t rfl

/-- With an end whose minute the clock shows, the minutes keep their days when the start does, comes before, and the
moment before the end is on the last day. -/
private theorem minutesKept_iff (zoned : clock.Zoned) (whole : msPerMinute ∣ clock.localTime (startTime clock first))
    (shows_ : clock.Shows (minuteWall clock (endTime clock last now))) : MinutesKept clock first last now ↔
      clock.day (startTime clock first) = clock.day first ∧
        clock.localTime (startTime clock first) < minuteWall clock (endTime clock last now) ∧
          clock.day (clock.utc (minuteWall clock (endTime clock last now)) - 1) = clock.day last := by
  have shown := (zoned.first (startTime clock first)).1
  have startMinute := minuteWall_eq whole
  have startDay : clock.day (clock.utc (clock.localTime (startTime clock first))) = clock.day (startTime clock first) := by
    rw [LocalClock.day, shown, LocalClock.day]
  constructor
  · rintro ⟨start, _, _, order, ends⟩
    rw [startMinute, zoned.utc_lt_utc shown shows_] at order
    exact ⟨start, order, ends⟩
  · rintro ⟨start, order, ends⟩
    refine ⟨start, ?_, ?_, ?_, ends⟩
    · rw [startMinute, startDay, start]
    · rw [LocalClock.day, shows_, day_minuteWall]
    · rwa [startMinute, zoned.utc_lt_utc shown shows_]

/-- Where no change ends inside a minute, minutes keep their days as the days do. -/
private theorem regular_iff (zoned : clock.Zoned) (regular : OnMinutes clock first last now)
    (ordered : clock.day first ≤ clock.day last) : MinutesKept clock first last now ↔ DaysKept clock first last now := by
  rcases le_or_gt (nextTime clock last) now with whole | capped
  · have same : endTime clock last now = nextTime clock last := min_eq_left whole
    have minute := minuteWall_eq (regular.whole whole)
    have begun := le_localTime_utc zoned (clock.day last * msPerDay)
    have further := le_localTime_utc zoned (clock.localTime (clock.utc (clock.day last * msPerDay)) + msPerDay)
    have shows_ : clock.Shows (minuteWall clock (endTime clock last now)) := by
      rw [same, minute]
      exact (zoned.first _).1
    have inside : ∃ t, clock.day t = clock.day last ∧ clock.localTime t < clock.localTime (nextTime clock last) := by
      refine ⟨last, rfl, ?_⟩
      rw [nextTime]
      simp only [LocalClock.day, msPerDay] at begun further ⊢
      omega
    rw [minutesKept_iff zoned regular.start shows_, day_before_iff zoned shows_, same, minute, whole_iff zoned]
    constructor
    · rintro ⟨start, _, _, ends⟩
      exact ⟨start, fun _ => ends, fun early => absurd early (not_lt.mpr whole)⟩
    · rintro ⟨start, ends, _⟩
      refine ⟨start, ?_, inside, ends whole⟩
      rw [nextTime]
      simp only [LocalClock.day, msPerDay] at start ordered begun further ⊢
      omega
  · have same : endTime clock last now = now := min_eq_right capped.le
    have shows_ : clock.Shows (minuteWall clock (endTime clock last now)) := by
      rw [same]
      exact regular.capped capped
    rw [minutesKept_iff zoned regular.start shows_, day_before_iff zoned shows_, same]
    constructor
    · rintro ⟨start, order, ends⟩
      exact ⟨start, fun late => absurd late (not_le.mpr capped), fun _ => ⟨order, ends⟩⟩
    · rintro ⟨start, _, ends⟩
      exact ⟨start, ends capped⟩

/-- A pick of days up to that of now names the same days when it is read back exactly under these conditions, in every
zone. -/
theorem day_range_round_trips_iff (tz : Python.Zone) (whole : tz.WholeSeconds) (first last now : ℤ)
    (ordered : (LocalClock.ofZone tz).day first ≤ (LocalClock.ofZone tz).day last)
    (past : (LocalClock.ofZone tz).day last ≤ (LocalClock.ofZone tz).day now) :
    RoundTrips (.ofZone tz) first last now ↔ KeepsDays (.ofZone tz) first last now := by
  have zoned := LocalClock.zoned_ofZone whole
  rw [roundTrips_iff zoned ordered past]
  by_cases regular : OnMinutes (.ofZone tz) first last now
  · rw [regular_iff zoned regular ordered]
    constructor
    · rintro ⟨early, late, kept⟩
      exact ⟨early, late, fun _ => kept, fun other => absurd regular other⟩
    · rintro ⟨early, late, kept, _⟩
      exact ⟨early, late, kept regular⟩
  · constructor
    · rintro ⟨early, late, kept⟩
      exact ⟨early, late, fun other => absurd other regular, fun _ => kept⟩
    · rintro ⟨early, late, _, kept⟩
      exact ⟨early, late, kept regular⟩

/-- Clocks went from midnight of 4 November 2018 to one. -/
def saoPaulo : Python.Zone :=
  ⟨-3 * Python.microsPerHour, [⟨1541300400000000, -2 * Python.microsPerHour⟩], by decide, by decide⟩

/-- On the day before, the range ends where the skipped midnight would be. -/
theorem day_range_round_trips_skip : RoundTrips (.ofZone saoPaulo) 1541250000000 1541250000000 1541600000000 :=
  (day_range_round_trips_iff saoPaulo ⟨⟨by decide, by decide⟩, by decide⟩ 1541250000000 1541250000000 1541600000000
      (by decide) (by decide)).mpr
    ⟨by decide, by decide, fun _ => ⟨by decide, by decide, fun capped => absurd capped (by decide)⟩,
      fun cut => absurd ⟨by decide, by decide, by decide⟩ cut⟩

/-- In the first minute of a day the range of that day is empty, and on a day without midnight it reaches into the
next day. -/
theorem day_range_breaks :
    ((LocalClock.ofZone .utc).day 1787184010000 ≤ (LocalClock.ofZone .utc).day 1787184030000 ∧
      ¬RoundTrips (.ofZone .utc) 1787184010000 1787184010000 1787184030000) ∧
    (LocalClock.ofZone saoPaulo).day 1541330000000 ≤ (LocalClock.ofZone saoPaulo).day 1541600000000 ∧
      ¬RoundTrips (.ofZone saoPaulo) 1541330000000 1541330000000 1541600000000 := by
  refine ⟨⟨by decide, ?_⟩, by decide, ?_⟩
  · rintro ⟨start, end_, ranged, valid, _⟩
    have texts : dayRange (.ofZone .utc) 1787184010000 1787184010000 1787184030000 =
      some ("2026-08-20T00:00", "2026-08-20T00:00") := by decide +kernel
    obtain ⟨rfl, rfl⟩ := Prod.mk.inj (Option.some.inj (texts.symm.trans ranged))
    revert valid
    decide +kernel
  · rintro ⟨start, end_, ranged, _, from_, to_, covered, _, ends⟩
    have texts : dayRange (.ofZone saoPaulo) 1541330000000 1541330000000 1541600000000 =
      some ("2018-11-04T01:00", "2018-11-05T01:00") := by decide +kernel
    obtain ⟨rfl, rfl⟩ := Prod.mk.inj (Option.some.inj (texts.symm.trans ranged))
    have days : rangeDays (.ofZone saoPaulo) "2018-11-04T01:00" "2018-11-05T01:00" =
      some (1541300400000, 1541386799999) := by decide +kernel
    obtain ⟨rfl, rfl⟩ := Prod.mk.inj (Option.some.inj (days.symm.trans covered))
    revert ends
    decide +kernel

end CliproxyUsage.Frontend
