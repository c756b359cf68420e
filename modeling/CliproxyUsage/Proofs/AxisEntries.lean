import CliproxyUsage.Model.Buckets
import CliproxyUsage.Python.ZoneSteps

/-! # The entries of an axis

Floors and steps of the bucket code in arithmetic. A bucket starts at a wall clock of its period,
the floor of an instant is the last one that its wall clock has reached, and the loop lists the
first floor and what follows it, hours in absolute time and days and weeks on the wall clock, as
long as they are before the end.
-/

namespace CliproxyUsage

open Python

/-- The wall clocks that start a bucket: local hours, local midnights, Monday midnights. -/
def StartsBucket : Bucket → ℤ → Prop
  | .hour, wall => microsPerHour ∣ wall
  | .day, wall => ∃ d, wall = d * microsPerDay
  | .week, wall => ∃ d, wall = d * microsPerDay ∧ Gregorian.weekday d = 0

namespace Bucket

def period : Bucket → ℤ
  | .hour => microsPerHour
  | .day => microsPerDay
  | .week => 7 * microsPerDay

theorem day_le_period {bucket : Bucket} (days : bucket ≠ .hour) : microsPerDay ≤ bucket.period := by
  cases bucket with
  | hour => contradiction
  | day => exact le_rfl
  | week => decide

/-- The first day of 1970 is three days into its week. -/
def phase : Bucket → ℤ
  | .hour | .day => 0
  | .week => 3 * microsPerDay

/-- The last start of a bucket up to a wall clock. -/
def floorWall (bucket : Bucket) (wall : ℤ) : ℤ := wall - (wall + bucket.phase) % bucket.period

variable {bucket : Bucket} {wall m : ℤ}

theorem period_pos (bucket : Bucket) : 0 < bucket.period := by cases bucket <;> decide

theorem startsBucket_iff : StartsBucket bucket wall ↔ bucket.period ∣ wall + bucket.phase := by
  cases bucket with
  | hour => simp [StartsBucket, period, phase]
  | day =>
    simp only [StartsBucket, period, phase, add_zero]
    exact ⟨fun ⟨d, at_⟩ => ⟨d, by rw [at_, mul_comm]⟩, fun ⟨d, at_⟩ => ⟨d, by rw [at_, mul_comm]⟩⟩
  | week =>
    simp only [StartsBucket, period, phase, Gregorian.weekday]
    constructor
    · rintro ⟨d, rfl, monday⟩
      refine ⟨(d + 3) / 7, ?_⟩
      rw [microsPerDay, microsPerSecond]
      omega
    · rintro ⟨k, at_⟩
      refine ⟨7 * k - 3, ?_, by omega⟩
      rw [microsPerDay, microsPerSecond] at at_ ⊢
      omega

theorem floorWall_starts (wall : ℤ) : StartsBucket bucket (bucket.floorWall wall) := by
  rw [startsBucket_iff, floorWall]
  have whole : bucket.period ∣ wall + bucket.phase - (wall + bucket.phase) % bucket.period := Int.dvd_self_sub_emod
  have same : wall - (wall + bucket.phase) % bucket.period + bucket.phase =
      wall + bucket.phase - (wall + bucket.phase) % bucket.period := by ring
  rwa [same]

theorem floorWall_le (wall : ℤ) : bucket.floorWall wall ≤ wall ∧ wall < bucket.floorWall wall + bucket.period := by
  have nonneg := Int.emod_nonneg (wall + bucket.phase) bucket.period_pos.ne'
  have less := Int.emod_lt_of_pos (wall + bucket.phase) bucket.period_pos
  rw [floorWall]
  omega

/-- Two starts are whole periods apart. -/
theorem exists_periods (first : StartsBucket bucket m) (second : StartsBucket bucket wall) :
    ∃ k, wall = m + k * bucket.period := by
  rw [startsBucket_iff] at first second
  obtain ⟨k, apart⟩ := Int.dvd_sub second first
  refine ⟨k, ?_⟩
  rw [mul_comm] at apart
  omega

theorem exists_periods_of_le (first : StartsBucket bucket m) (second : StartsBucket bucket wall) (order : m ≤ wall) :
    ∃ k : ℕ, wall = m + k * bucket.period := by
  obtain ⟨k, apart⟩ := exists_periods first second
  have later : 0 ≤ k := by
    by_contra negative
    have product : k * bucket.period < 0 := Int.mul_neg_of_neg_of_pos (not_le.mp negative) bucket.period_pos
    omega
  obtain ⟨k, rfl⟩ := Int.eq_ofNat_of_zero_le later
  exact ⟨k, apart⟩

theorem starts_add (starts : StartsBucket bucket m) (k : ℤ) : StartsBucket bucket (m + k * bucket.period) := by
  rw [startsBucket_iff] at starts ⊢
  obtain ⟨j, at_⟩ := starts
  refine ⟨j + k, ?_⟩
  rw [mul_add, ← at_, mul_comm k]
  omega

/-- No start up to the wall clock is after its floor. -/
theorem le_floorWall (starts : StartsBucket bucket m) (upTo : m ≤ wall) : m ≤ bucket.floorWall wall := by
  obtain ⟨k, apart⟩ := exists_periods starts (floorWall_starts wall)
  have near := (@floorWall_le bucket wall).2
  have positive := bucket.period_pos
  by_contra past
  have negative : k ≤ -1 := by
    by_contra other
    have product : 0 ≤ k * bucket.period := Int.mul_nonneg (by omega) positive.le
    omega
  have product : k * bucket.period ≤ -1 * bucket.period := Int.mul_le_mul_of_nonneg_right negative positive.le
  omega

/-- A start less than a period after another one is not after it. -/
theorem starts_le (first : StartsBucket bucket m) (second : StartsBucket bucket wall) (near : wall < m + bucket.period) :
    wall ≤ m := by
  obtain ⟨k, rfl⟩ := exists_periods first second
  have positive := bucket.period_pos
  by_contra past
  have several : 1 ≤ k := by
    by_contra other
    have product : k * bucket.period ≤ 0 := Int.mul_nonpos_of_nonpos_of_nonneg (by omega) positive.le
    omega
  have product : 1 * bucket.period ≤ k * bucket.period := Int.mul_le_mul_of_nonneg_right several positive.le
  omega

/-- Every bucket starts on the hour. -/
theorem hour_dvd (starts : StartsBucket bucket wall) : microsPerHour ∣ wall := by
  have day (d : ℤ) : microsPerHour ∣ d * microsPerDay := ⟨d * 24, by
    rw [show microsPerDay = microsPerHour * 24 from rfl]
    ring⟩
  cases bucket with
  | hour => exact starts
  | day =>
    obtain ⟨d, rfl⟩ := starts
    exact day d
  | week =>
    obtain ⟨d, rfl, _⟩ := starts
    exact day d

end Bucket

/-- The floor of an instant, which keeps the pass of the wall clock for hours only. -/
def floorLocal (bucket : Bucket) (tz : Zone) (x : ℤ) : LocalTime :=
  ⟨bucket.floorWall (tz.localAt x).wall, decide (bucket = .hour) && (tz.localAt x).fold⟩

/-- The entry `k` steps after the first one. -/
def axisEntry (bucket : Bucket) (tz : Zone) (first : LocalTime) (k : ℕ) : LocalTime :=
  if k = 0 then first
  else if bucket = .hour then tz.localAt (tz.toUtc first + k * microsPerHour)
  else ⟨first.wall + k * bucket.period, false⟩

variable {bucket : Bucket} {tz : Zone} {start end_ : ℤ}

/-- The floor raises exactly where a wall clock leaves the range of `datetime`. -/
theorem floorToBucket_eq (x : ℤ) :
    floorToBucket x bucket tz =
      if InRange (tz.localAt x).wall ∧ InRange (floorLocal bucket tz x).wall then .ok (floorLocal bucket tz x)
      else .error .overflowError := by
  rw [floorToBucket, Zone.fromUtc, Except.bind_def]
  by_cases fits : InRange (tz.localAt x).wall
  · rw [if_pos fits, Except.bind_ok]
    cases bucket with
    | hour =>
      have inside : InRange (floorLocal .hour tz x).wall := by
        obtain ⟨least, most⟩ := fits
        simp only [InRange, floorLocal, Bucket.floorWall, Bucket.phase, Bucket.period, minWall, maxWall, microsPerHour,
          microsPerSecond] at least most ⊢
        omega
      rw [if_pos ⟨fits, inside⟩]
      simp [floorLocal, Bucket.floorWall, Bucket.phase, Bucket.period]
    | day =>
      have wall : (tz.localAt x).wall / microsPerDay * microsPerDay = (floorLocal .day tz x).wall := by
        simp only [floorLocal, Bucket.floorWall, Bucket.phase, Bucket.period, microsPerDay, microsPerSecond]
        omega
      simp only [localMidnight, wall, fits, true_and]
      rfl
    | week =>
      have wall : ((tz.localAt x).wall / microsPerDay - Gregorian.weekday ((tz.localAt x).wall / microsPerDay)) *
          microsPerDay = (floorLocal .week tz x).wall := by
        simp only [floorLocal, Bucket.floorWall, Bucket.phase, Bucket.period, Gregorian.weekday, microsPerDay,
          microsPerSecond]
        omega
      simp only [localMidnight, wall, fits, true_and]
      rfl
  · rw [if_neg fits, if_neg fun both => fits both.1]
    rfl

/-- The bucket of an instant starts at a whole local hour that is not after it. -/
theorem floorLocal_le (noSkip : tz.NoHourSkipped) : tz.toUtc (floorLocal bucket tz start) ≤ start := by
  refine Zone.toUtc_le noSkip (Bucket.hour_dvd (Bucket.floorWall_starts _)) ?_ (Bucket.floorWall_le _).1
  cases bucket with
  | hour => exact .inr rfl
  | day | week => exact .inl rfl

/-- Hours step in absolute time. -/
theorem toUtc_axisEntry_hour (first : LocalTime) (k : ℕ) :
    tz.toUtc (axisEntry .hour tz first k) = tz.toUtc first + k * microsPerHour := by
  rw [axisEntry, if_pos rfl]
  split
  · next zero => simp [zero]
  · exact Zone.toUtc_localAt _

theorem floorLocal_days (days : bucket ≠ .hour) (x : ℤ) :
    floorLocal bucket tz x = ⟨bucket.floorWall (tz.localAt x).wall, false⟩ := by
  simp [floorLocal, days]

/-- Days and weeks step on the wall clock. -/
theorem axisEntry_wall (days : bucket ≠ .hour) {first : LocalTime} (k : ℕ) :
    (axisEntry bucket tz first k).wall = first.wall + k * bucket.period := by
  rw [axisEntry, if_neg days]
  split
  · next zero => simp [zero]
  · rfl

theorem axisEntry_days (days : bucket ≠ .hour) (k : ℕ) :
    axisEntry bucket tz (floorLocal bucket tz start) k =
      ⟨bucket.floorWall (tz.localAt start).wall + k * bucket.period, false⟩ := by
  rw [axisEntry, if_neg days, floorLocal_days days]
  split
  · next zero => rw [zero, Nat.cast_zero, zero_mul, add_zero]
  · rfl

/-- The step from an entry stays in range: the wall clock of the next one, and for hours the instants of both. -/
def StepFits (bucket : Bucket) (tz : Zone) (first : LocalTime) (k : ℕ) : Prop :=
  InRange (axisEntry bucket tz first (k + 1)).wall ∧
    (bucket = .hour → InRange (tz.toUtc first + k * microsPerHour) ∧
      InRange (tz.toUtc first + (k + 1 : ℕ) * microsPerHour))

instance (first : LocalTime) (k : ℕ) : Decidable (StepFits bucket tz first k) := inferInstanceAs (Decidable (_ ∧ _))

/-- A step leads to the next entry, and raises exactly where it leaves the range of `datetime`. -/
theorem nextBucket_entry {first : LocalTime} (k : ℕ) (aligned : bucket ≠ .hour → StartsBucket bucket first.wall) :
    nextBucket (axisEntry bucket tz first k) bucket tz =
      if StepFits bucket tz first k then .ok (axisEntry bucket tz first (k + 1)) else .error .overflowError := by
  have midnight {d : ℤ} (days : bucket ≠ .hour) (same : d * microsPerDay = first.wall + (k + 1 : ℕ) * bucket.period) :
      localMidnight d =
        if StepFits bucket tz first k then .ok (axisEntry bucket tz first (k + 1)) else .error .overflowError := by
    simp [localMidnight, StepFits, axisEntry, days, same]
  cases bucket with
  | hour =>
    have later : tz.toUtc first + k * microsPerHour + microsPerHour = tz.toUtc first + (k + 1 : ℕ) * microsPerHour := by
      push_cast
      ring
    have next : axisEntry .hour tz first (k + 1) = tz.localAt (tz.toUtc first + (k + 1 : ℕ) * microsPerHour) := by
      rw [axisEntry, if_neg (Nat.succ_ne_zero k), if_pos rfl]
    simp only [nextBucket, toUtc_axisEntry_hour, later, Zone.fromUtc, StepFits, next, true_implies]
    by_cases instants : InRange (tz.toUtc first + k * microsPerHour) ∧ InRange (tz.toUtc first + (k + 1 : ℕ) * microsPerHour)
    · simp only [instants, and_self, and_true, if_true]
    · simp only [instants, and_false, if_false]
  | day =>
    obtain ⟨d, at_⟩ := aligned (by decide)
    rw [nextBucket, axisEntry_wall (by decide)]
    apply midnight (by decide)
    rw [at_, Bucket.period, microsPerDay, microsPerSecond]
    push_cast
    omega
  | week =>
    obtain ⟨d, at_, _⟩ := aligned (by decide)
    rw [nextBucket, axisEntry_wall (by decide)]
    apply midnight (by decide)
    rw [at_, Bucket.period, microsPerDay, microsPerSecond]
    push_cast
    omega

/-- Where the loop of an axis stops: at the first entry that is not before the end, or at its limit, with every
step up to there in range. -/
structure StopsAt (bucket : Bucket) (tz : Zone) (end_ : ℤ) (limit : Option ℕ) (first : LocalTime) (n : ℕ) : Prop where
  before : ∀ k < n, tz.toUtc (axisEntry bucket tz first k) < end_
  fits : ∀ k < n, StepFits bucket tz first k
  within : ∀ l, limit = some l → n ≤ l
  stops : end_ ≤ tz.toUtc (axisEntry bucket tz first n) ∨ limit = some n

/-- From an entry at which the loop goes on, it stops later only. -/
private theorem StopsAt.later {limit : Option ℕ} {first : LocalTime} {n j : ℕ}
    (stop : StopsAt bucket tz end_ limit first n) (least : j ≤ n)
    (goes : tz.toUtc (axisEntry bucket tz first j) < end_ ∧ limit ≠ some j) : j + 1 ≤ n := by
  rcases least.lt_or_eq with less | rfl
  · exact less
  · rcases stop.stops with past | reached
    · exact absurd goes.1 (not_lt.mpr past)
    · exact absurd reached goes.2

/-- At an entry at which the loop does not go on, it stops. -/
private theorem StopsAt.here {limit : Option ℕ} {first : LocalTime} {n j : ℕ}
    (stop : StopsAt bucket tz end_ limit first n) (least : j ≤ n)
    (stops : end_ ≤ tz.toUtc (axisEntry bucket tz first j) ∨ limit = some j) : n = j := by
  by_contra other
  rcases stops with past | reached
  · exact absurd (stop.before j (by omega)) (not_lt.mpr past)
  · have := stop.within j reached
    omega

private theorem remaining_eq_zero {limit : Option ℕ} {j : ℕ} (under : ∀ l, limit = some l → j ≤ l) :
    limit.map (· - j) = some 0 ↔ limit = some j := by
  cases limit with
  | none => simp
  | some l =>
    have least := under l rfl
    simp only [Option.map_some, Option.some.injEq]
    omega

/-- The loop lists the entries up to where it stops. -/
private theorem bucketsFrom_eq_ok {first : LocalTime} (aligned : bucket ≠ .hour → StartsBucket bucket first.wall)
    {limit : Option ℕ} {fuel j : ℕ} {starts : List LocalTime} (under : ∀ l, limit = some l → j ≤ l)
    (already : ∀ k < j, tz.toUtc (axisEntry bucket tz first k) < end_ ∧ StepFits bucket tz first k) :
    bucketsFrom end_ bucket tz fuel (limit.map (· - j)) (axisEntry bucket tz first j) = .ok starts ↔
      ∃ n, StopsAt bucket tz end_ limit first n ∧ j ≤ n ∧ n < j + fuel ∧
        starts = (List.range' j (n - j)).map (axisEntry bucket tz first) := by
  induction fuel generalizing j starts with
  | zero =>
    refine ⟨nofun, ?_⟩
    rintro ⟨n, _, least, most, _⟩
    omega
  | succ fuel ih =>
    have remaining := remaining_eq_zero under
    have decremented : (limit.map (· - j)).map (· - 1) = limit.map (· - (j + 1)) := Option.map_map ..
    have listed {n : ℕ} (later : j + 1 ≤ n) : (List.range' j (n - j)).map (axisEntry bucket tz first) =
        axisEntry bucket tz first j :: (List.range' (j + 1) (n - (j + 1))).map (axisEntry bucket tz first) := by
      rw [show n - j = n - (j + 1) + 1 by omega, List.range'_succ, List.map_cons]
    rw [bucketsFrom]
    by_cases goes : tz.toUtc (axisEntry bucket tz first j) < end_ ∧ limit ≠ some j
    · rw [if_pos ⟨goes.1, fun none_left => goes.2 (remaining.mp none_left)⟩, nextBucket_entry j aligned, Except.bind_def]
      by_cases fits : StepFits bucket tz first j
      · have under' : ∀ l, limit = some l → j + 1 ≤ l := fun l same =>
          Nat.lt_of_le_of_ne (under l same) fun equal => goes.2 (equal ▸ same)
        have already' : ∀ k < j + 1, tz.toUtc (axisEntry bucket tz first k) < end_ ∧ StepFits bucket tz first k := by
          intro k inside
          rcases Nat.lt_succ_iff_lt_or_eq.mp inside with less | rfl
          · exact already k less
          · exact ⟨goes.1, fits⟩
        simp only [if_pos fits, Except.bind_ok, decremented, Except.bind_def, Except.bind_eq_ok, ih under' already',
          Except.ok.injEq]
        constructor
        · rintro ⟨rest, ⟨n, stop, least, most, rfl⟩, rfl⟩
          exact ⟨n, stop, by omega, by omega, (listed least).symm⟩
        · rintro ⟨n, stop, least, most, rfl⟩
          have later := stop.later least goes
          exact ⟨_, ⟨n, stop, later, by omega, rfl⟩, (listed later).symm⟩
      · rw [if_neg fits]
        refine ⟨nofun, ?_⟩
        rintro ⟨n, stop, least, _, _⟩
        exact absurd (stop.fits j (stop.later least goes)) fits
    · have stops : end_ ≤ tz.toUtc (axisEntry bucket tz first j) ∨ limit = some j := by
        by_contra neither
        rw [not_or, not_le] at neither
        exact goes neither
      rw [if_neg fun both => goes ⟨both.1, fun reached => both.2 (remaining.mpr reached)⟩, Except.ok.injEq]
      constructor
      · rintro rfl
        exact ⟨j, ⟨fun k inside => (already k inside).1, fun k inside => (already k inside).2, under, stops⟩, le_rfl,
          by omega, by simp⟩
      · rintro ⟨n, stop, least, _, rfl⟩
        simp [stop.here least stops]

/-- An axis lists the entries from the floor of its start up to where the loop stops. -/
theorem bucketStarts_eq_ok {limit : Option ℕ} {starts : List LocalTime} :
    bucketStarts start end_ bucket tz limit = .ok starts ↔
      InRange (tz.localAt start).wall ∧ InRange (floorLocal bucket tz start).wall ∧
      ∃ n < loopFuel, StopsAt bucket tz end_ limit (floorLocal bucket tz start) n ∧
        starts = (List.range n).map (axisEntry bucket tz (floorLocal bucket tz start)) := by
  have looped (found : List LocalTime) := @bucketsFrom_eq_ok bucket tz end_ (floorLocal bucket tz start)
    (fun _ => Bucket.floorWall_starts _) limit loopFuel 0 found (fun _ _ => Nat.zero_le _)
    (fun _ inside => absurd inside (Nat.not_lt_zero _))
  have whole : limit.map (· - 0) = limit := by simp
  have zeroth : axisEntry bucket tz (floorLocal bucket tz start) 0 = floorLocal bucket tz start := if_pos rfl
  rw [whole, zeroth] at looped
  rw [bucketStarts, floorToBucket_eq, Except.bind_def]
  split
  · next fits =>
    rw [Except.bind_ok, looped]
    simp only [fits.1, fits.2, true_and, Nat.zero_le, Nat.zero_add, Nat.sub_zero, ← List.range_eq_range']
    constructor
    · rintro ⟨n, stop, most, listed⟩
      exact ⟨n, most, stop, listed⟩
    · rintro ⟨n, most, stop, listed⟩
      exact ⟨n, stop, most, listed⟩
  · next leaves =>
    refine ⟨nofun, ?_⟩
    rintro ⟨local_, floored, _⟩
    exact absurd ⟨local_, floored⟩ leaves

/-- An axis without a limit lists the entries before the end. -/
theorem bucketStarts_entries {starts : List LocalTime} (listed : bucketStarts start end_ bucket tz none = .ok starts) :
    InRange (floorLocal bucket tz start).wall ∧
    ∃ n, starts = (List.range n).map (axisEntry bucket tz (floorLocal bucket tz start)) ∧
      (∀ i < n, tz.toUtc (axisEntry bucket tz (floorLocal bucket tz start) i) < end_ ∧
        InRange (axisEntry bucket tz (floorLocal bucket tz start) (i + 1)).wall) ∧
      end_ ≤ tz.toUtc (axisEntry bucket tz (floorLocal bucket tz start) n) := by
  obtain ⟨_, floored, n, _, stop, same⟩ := bucketStarts_eq_ok.mp listed
  refine ⟨floored, n, same, fun i inside => ⟨stop.before i inside, (stop.fits i inside).1⟩, ?_⟩
  exact stop.stops.resolve_right (by simp)

end CliproxyUsage
