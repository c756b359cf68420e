import CliproxyUsage.Model.Usage
import CliproxyUsage.Proofs.AxisEntries

/-! # The range of an axis

Which axes the years 1 to 9999 hold. An axis raises nothing exactly where its floor is in range and
the steps from there lead, in range, to an entry that is not before the end. A limit only cuts the
list off, so a decision on more entries than a bound is the same with one entry above the bound. The
search for a granularity raises nothing exactly where each axis that it lists stays in range.
-/

namespace CliproxyUsage

open Python

namespace Bucket

/-- How often a granularity can still coarsen. -/
def coarserCount : Bucket → ℕ
  | .hour => 2
  | .day => 1
  | .week => 0

variable {bucket next : Bucket}

theorem coarserCount_le (bucket : Bucket) : bucket.coarserCount ≤ 2 := by cases bucket <;> decide

theorem eq_week_of_coarser (last : coarser bucket = none) : bucket = .week := by
  cases bucket with
  | hour | day => cases last
  | week => rfl

theorem coarserCount_next (step : coarser bucket = some next) : bucket.coarserCount = next.coarserCount + 1 := by
  cases bucket with
  | hour | day => cases step; rfl
  | week => cases step

/-- The next granularity is the finest of the coarser ones. -/
theorem period_next (step : coarser bucket = some next) (other : Bucket) :
    bucket.period < other.period ↔ next.period ≤ other.period := by
  cases bucket with
  | hour | day => cases step; cases other <;> decide
  | week => cases step

theorem period_injective : Function.Injective period := by
  intro first second
  cases first <;> cases second <;> decide

theorem period_le_week (bucket : Bucket) : bucket.period ≤ Bucket.week.period := by cases bucket <;> decide

end Bucket

/-- The wall clocks of the start and of its floor are in range, and so are the steps from there to some entry that is
not before the end, or to the limit. -/
structure AxisFits (start end_ : ℤ) (bucket : Bucket) (tz : Zone) (limit : Option ℕ) : Prop where
  local_ : InRange (tz.localAt start).wall
  floor : InRange (floorLocal bucket tz start).wall
  steps : ∃ n, (end_ ≤ tz.toUtc (axisEntry bucket tz (floorLocal bucket tz start) n) ∨ limit = some n) ∧
    ∀ k < n, StepFits bucket tz (floorLocal bucket tz start) k

variable {bucket : Bucket} {tz : Zone} {start end_ : ℤ} {limit : Option ℕ}

/-- The range of `datetime` holds fewer steps than the fuel of the loop. -/
private theorem lt_loopFuel {first : LocalTime} (inside : InRange first.wall) {n : ℕ}
    (fits : ∀ k < n, StepFits bucket tz first k) : n < loopFuel := by
  cases n with
  | zero => decide
  | succ m =>
    have last := fits m (Nat.lt_succ_self m)
    rw [show loopFuel = 87700000 from rfl]
    by_cases hours : bucket = .hour
    · obtain ⟨_, late⟩ := last.2 hours
      obtain ⟨opening, _⟩ := (fits 0 (Nat.succ_pos m)).2 hours
      simp only [InRange, minWall, maxWall, microsPerHour, microsPerSecond, Nat.cast_zero, zero_mul, add_zero] at late opening
      push_cast at late
      omega
    · have wall := last.1
      rw [axisEntry_wall hours] at wall
      have period := Bucket.day_le_period hours
      have far : ((m + 1 : ℕ) : ℤ) * microsPerDay ≤ (m + 1 : ℕ) * bucket.period :=
        Int.mul_le_mul_of_nonneg_left period (Int.natCast_nonneg _)
      simp only [InRange, minWall, maxWall, microsPerDay, microsPerSecond] at inside wall far
      push_cast at wall far
      omega

/-- The loop stops at the first of the entries that the condition allows. -/
private theorem AxisFits.stopsAt (fits : AxisFits start end_ bucket tz limit) :
    ∃ n < loopFuel, StopsAt bucket tz end_ limit (floorLocal bucket tz start) n := by
  obtain ⟨m, reached, steps⟩ := fits.steps
  have some_ : ∃ n, end_ ≤ tz.toUtc (axisEntry bucket tz (floorLocal bucket tz start) n) ∨ limit = some n := ⟨m, reached⟩
  classical
  have least : Nat.find some_ ≤ m := Nat.find_min' some_ reached
  have inside : ∀ k < Nat.find some_, StepFits bucket tz (floorLocal bucket tz start) k :=
    fun k earlier => steps k (earlier.trans_le least)
  refine ⟨Nat.find some_, lt_loopFuel fits.floor inside, fun k earlier => ?_, inside, fun l same => ?_, Nat.find_spec some_⟩
  · exact not_le.mp fun past => Nat.find_min some_ earlier (.inl past)
  · exact Nat.find_min' some_ (.inr same)

/-- An axis is listed exactly where it stays in range. -/
theorem axisFits_iff :
    AxisFits start end_ bucket tz limit ↔ ∃ starts, bucketStarts start end_ bucket tz limit = .ok starts := by
  constructor
  · intro fits
    obtain ⟨n, most, stop⟩ := fits.stopsAt
    exact ⟨_, bucketStarts_eq_ok.mpr ⟨fits.local_, fits.floor, n, most, stop, rfl⟩⟩
  · rintro ⟨starts, listed⟩
    obtain ⟨local_, floor, n, _, stop, _⟩ := bucketStarts_eq_ok.mp listed
    exact ⟨local_, floor, n, stop.stops, stop.fits⟩

/-- A loop that raises stops at a step out of range, or it has taken a step in range for each unit of its fuel. -/
private theorem bucketsFrom_error {first : LocalTime} (aligned : bucket ≠ .hour → StartsBucket bucket first.wall)
    {fuel j : ℕ} {e : PyError} (already : ∀ k < j, StepFits bucket tz first k)
    (raised : bucketsFrom end_ bucket tz fuel limit (axisEntry bucket tz first j) = .error e) :
    e = .overflowError ∨ ∀ k < j + fuel, StepFits bucket tz first k := by
  induction fuel generalizing j limit with
  | zero => exact .inr already
  | succ fuel ih =>
    rw [bucketsFrom] at raised
    split at raised
    · rw [nextBucket_entry j aligned, Except.bind_def] at raised
      split at raised
      · next fits =>
        have already' : ∀ k < j + 1, StepFits bucket tz first k := by
          intro k inside
          rcases Nat.lt_succ_iff_lt_or_eq.mp inside with less | rfl
          · exact already k less
          · exact fits
        rw [Except.bind_ok] at raised
        cases rest : bucketsFrom end_ bucket tz fuel (limit.map (· - 1)) (axisEntry bucket tz first (j + 1)) with
        | ok starts =>
          rw [rest] at raised
          cases raised
        | error other =>
          rw [rest] at raised
          cases raised
          rw [show j + (fuel + 1) = j + 1 + fuel by omega]
          exact ih already' rest
      · cases raised
        exact .inl rfl
    · cases raised

/-- An axis always ends: it can only leave the range of `datetime`. -/
theorem bucketStarts_error {e : PyError} (raised : bucketStarts start end_ bucket tz limit = .error e) :
    e = .overflowError := by
  rw [bucketStarts, floorToBucket_eq, Except.bind_def] at raised
  split at raised
  · next fits =>
    have zeroth : axisEntry bucket tz (floorLocal bucket tz start) 0 = floorLocal bucket tz start := if_pos rfl
    rw [Except.bind_ok, ← zeroth] at raised
    rcases bucketsFrom_error (fun _ => Bucket.floorWall_starts _) (fun _ none_ => absurd none_ (Nat.not_lt_zero _)) raised
      with overflow | endless
    · exact overflow
    · rw [Nat.zero_add] at endless
      exact absurd (lt_loopFuel fits.2 endless) (lt_irrefl _)
  · cases raised
    rfl

/-- A limit keeps the first entries. -/
theorem bucketStarts_take {starts : List LocalTime} (listed : bucketStarts start end_ bucket tz none = .ok starts)
    (l : ℕ) : bucketStarts start end_ bucket tz (some l) = .ok (starts.take l) := by
  obtain ⟨local_, floor, n, most, stop, rfl⟩ := bucketStarts_eq_ok.mp listed
  have ended := stop.stops.resolve_right (by simp)
  refine bucketStarts_eq_ok.mpr ⟨local_, floor, min l n, by omega, ?_, ?_⟩
  · refine ⟨fun k inside => stop.before k (by omega), fun k inside => stop.fits k (by omega), ?_, ?_⟩
    · rintro _ ⟨rfl⟩
      exact min_le_left _ _
    · rcases le_total l n with cut | whole
      · exact .inr (congrArg some (min_eq_left cut).symm)
      · rw [min_eq_right whole]
        exact .inl ended
  · rw [← List.map_take, List.take_range]

/-- With one entry above a bound, a list tells whether the bound is kept. -/
theorem length_le_iff {m : ℕ} {starts : List LocalTime}
    (listed : bucketStarts start end_ bucket tz (some (m + 1)) = .ok starts) :
    starts.length ≤ m ↔ ∃ k ≤ m, end_ ≤ tz.toUtc (axisEntry bucket tz (floorLocal bucket tz start) k) := by
  obtain ⟨_, _, n, _, stop, rfl⟩ := bucketStarts_eq_ok.mp listed
  rw [List.length_map, List.length_range]
  constructor
  · intro few
    refine ⟨n, few, stop.stops.resolve_right fun full => ?_⟩
    injection full with full
    omega
  · rintro ⟨k, few, ended⟩
    by_contra many
    exact absurd (stop.before k (by omega)) (not_lt.mpr ended)

/-- A list that ends within the limit is complete. -/
theorem AxisFits.complete {m k : ℕ} (fits : AxisFits start end_ bucket tz (some m)) (few : k ≤ m)
    (ended : end_ ≤ tz.toUtc (axisEntry bucket tz (floorLocal bucket tz start) k)) :
    AxisFits start end_ bucket tz none := by
  obtain ⟨n, reached, steps⟩ := fits.steps
  refine ⟨fits.local_, fits.floor, ?_⟩
  rcases reached with past | full
  · exact ⟨n, .inl past, steps⟩
  · injection full with full
    exact ⟨k, .inl ended, fun j inside => steps j (by omega)⟩

section Search

variable (start end_ : ℤ) (tz : Zone)

/-- More than `maxBuckets` entries come before the end. -/
def Crowded (bucket : Bucket) : Prop :=
  ∀ k ≤ maxBuckets, tz.toUtc (axisEntry bucket tz (floorLocal bucket tz start) k) < end_

/-- The most entries that the search lists of a granularity. -/
def searchLimit (bucket : Bucket) : Option ℕ := (coarser bucket).map fun _ => maxBuckets + 1

/-- From a granularity on, each axis stays in range for which all of the finer ones are crowded. -/
def SearchFits (first : Bucket) : Prop :=
  ∀ bucket : Bucket, first.period ≤ bucket.period →
    (∀ finer : Bucket, first.period ≤ finer.period → finer.period < bucket.period → Crowded start end_ tz finer) →
    AxisFits start end_ bucket tz (searchLimit bucket)

end Search

/-- Weeks are never skipped, so nothing limits their list. -/
theorem searchFits_week : SearchFits start end_ tz .week ↔ AxisFits start end_ .week tz none := by
  constructor
  · exact fun fits => fits .week le_rfl fun finer least less => absurd less (not_lt.mpr least)
  · intro fits bucket least _
    have same : bucket = .week := Bucket.period_injective (bucket.period_le_week.antisymm least)
    rw [same]
    exact fits

/-- The search goes on past crowded axes only. -/
theorem searchFits_next {next : Bucket} (step : coarser bucket = some next) :
    SearchFits start end_ tz bucket ↔
      AxisFits start end_ bucket tz (some (maxBuckets + 1)) ∧
        (Crowded start end_ tz bucket → SearchFits start end_ tz next) := by
  have coarserThan := Bucket.period_next step
  have limited : searchLimit bucket = some (maxBuckets + 1) := by rw [searchLimit, step, Option.map_some]
  constructor
  · intro fits
    refine ⟨limited ▸ fits bucket le_rfl fun finer least less => absurd less (not_lt.mpr least), ?_⟩
    intro crowded other least skipped
    refine fits other ((coarserThan other).mpr least).le fun finer from_ less => ?_
    rcases from_.lt_or_eq with coarser_ | same
    · exact skipped finer ((coarserThan finer).mp coarser_) less
    · rwa [← Bucket.period_injective same]
  · rintro ⟨fits, later⟩ other least skipped
    rcases least.lt_or_eq with coarser_ | same
    · exact later (skipped bucket le_rfl coarser_) other ((coarserThan other).mp coarser_) fun finer from_ less =>
        skipped finer ((coarserThan finer).mpr from_).le less
    · rw [← Bucket.period_injective same, limited]
      exact fits

/-- The search ends with weeks. -/
private theorem week_listed_iff : (∃ result starts, (Except.ok .week : Except PyError Bucket) = .ok result ∧
    bucketStarts start end_ result tz none = .ok starts) ↔ SearchFits start end_ tz .week := by
  rw [searchFits_week, axisFits_iff]
  simp

/-- The search and the list of its result raise nothing exactly where every axis on the way stays in range. -/
theorem coarsen_listed_iff {fuel : ℕ} (enough : bucket.coarserCount ≤ fuel) :
    (∃ result starts, coarsen start end_ tz fuel bucket = .ok result ∧
      bucketStarts start end_ result tz none = .ok starts) ↔ SearchFits start end_ tz bucket := by
  induction fuel generalizing bucket with
  | zero =>
    cases bucket with
    | hour | day => cases enough
    | week => exact week_listed_iff
  | succ fuel ih =>
    rw [coarsen]
    cases step : coarser bucket with
    | none =>
      rw [Bucket.eq_week_of_coarser step]
      exact week_listed_iff
    | some next =>
      simp only
      rw [searchFits_next step]
      by_cases fits : AxisFits start end_ bucket tz (some (maxBuckets + 1))
      · obtain ⟨capped, listed⟩ := axisFits_iff.mp fits
        simp only [listed, Except.bind_def, Except.bind_ok, fits, true_and]
        split
        · next few =>
          obtain ⟨k, under, ended⟩ := (length_le_iff listed).mp few
          have free : ¬Crowded start end_ tz bucket := fun crowded => absurd (crowded k under) (not_lt.mpr ended)
          obtain ⟨starts, complete⟩ := axisFits_iff.mp (fits.complete (by omega) ended)
          simp only [free, false_implies, iff_true]
          exact ⟨bucket, starts, rfl, complete⟩
        · next many =>
          have crowded : Crowded start end_ tz bucket := by
            intro k under
            by_contra ended
            exact many ((length_le_iff listed).mpr ⟨k, under, not_lt.mp ended⟩)
          rw [Bucket.coarserCount_next step] at enough
          simp only [crowded, true_implies]
          exact ih (Nat.le_of_succ_le_succ enough)
      · simp only [fits, false_and, iff_false]
        rintro ⟨result, starts, chosen, _⟩
        simp only [Except.bind_def, Except.bind_eq_ok] at chosen
        obtain ⟨capped, listed, _⟩ := chosen
        exact fits (axisFits_iff.mpr ⟨capped, listed⟩)

/-- The axis of a window is made exactly where the search for its granularity stays in range. -/
theorem axisFrom_ok_iff {requested : Option Bucket} : (∃ axis, axisFrom start end_ requested tz = .ok axis) ↔
    SearchFits start end_ tz (requested.getD (autoBucket start end_)) := by
  rw [← coarsen_listed_iff (Bucket.coarserCount_le _)]
  simp only [axisFrom, effectiveBucket, Except.bind_def, Except.bind_eq_ok]
  constructor
  · rintro ⟨axis, bucket, chosen, starts, listed, _⟩
    exact ⟨bucket, starts, chosen, listed⟩
  · rintro ⟨bucket, starts, chosen, listed⟩
    exact ⟨_, bucket, chosen, starts, listed, rfl⟩

end CliproxyUsage
