import CliproxyUsage.Proofs.AxisRange
import Mathlib.Order.Monotone.Basic

/-! # Axes are dense

Where an axis stays in the years 1 to 9999, it covers its window: it begins at or before the start,
ascends in absolute time although days and weeks step on the wall clock, and stops at the last bucket
before the end. Otherwise it raises, and it never runs on.
-/

namespace CliproxyUsage

open Python

variable {bucket : Bucket} {tz : Zone} {start end_ : ℤ} {starts : List LocalTime}

/-- The list covers a window: its bucket starts ascend from one that is not after the start to the last one before
the end, and a limit cuts it off. -/
structure Dense (start end_ : ℤ) (bucket : Bucket) (tz : Zone) (starts : List LocalTime) : Prop where
  nonempty : starts ≠ []
  ascending : (starts.map tz.toUtc).Pairwise (· < ·)
  begins : ∀ first, starts.head? = some first → tz.toUtc first ≤ start
  before : ∀ b ∈ starts, tz.toUtc b < end_
  stops : ∀ last, starts.getLast? = some last → ∃ next, nextBucket last bucket tz = .ok next ∧ end_ ≤ tz.toUtc next
  limited : ∀ limit, bucketStarts start end_ bucket tz (some limit) = .ok (starts.take limit)

/-- The entries of an axis ascend: an hour in absolute time, or midnights at least a day apart on the wall clock. -/
private theorem axisEntry_lt (near : ChangesWithinDay tz.initial tz.transitions) (k : ℕ) :
    tz.toUtc (axisEntry bucket tz (floorLocal bucket tz start) k) <
      tz.toUtc (axisEntry bucket tz (floorLocal bucket tz start) (k + 1)) := by
  have positive : 0 < microsPerHour := by decide
  by_cases hours : bucket = .hour
  · subst hours
    rw [toUtc_axisEntry_hour, toUtc_axisEntry_hour]
    push_cast
    linarith
  · have step (wall : ℤ) : tz.toUtc ⟨wall, false⟩ < tz.toUtc ⟨wall + bucket.period, false⟩ := by
      cases bucket with
      | hour => contradiction
      | day => exact Zone.toUtc_lt_day near wall
      | week =>
        -- A week outlasts any two offsets.
        have earlier := (@Zone.toUtc_bounds tz ⟨wall, false⟩).2
        have later := (@Zone.toUtc_bounds tz ⟨wall + Bucket.week.period, false⟩).1
        simp only [Bucket.period, microsPerDay, microsPerSecond] at earlier later ⊢
        omega
    rw [axisEntry_days hours, axisEntry_days hours, Nat.cast_succ, add_mul, one_mul, ← add_assoc]
    exact step _

private theorem dense_of_listed (noSkip : tz.NoHourSkipped) (near : ChangesWithinDay tz.initial tz.transitions)
    (nonempty : start < end_) (listed : bucketStarts start end_ bucket tz none = .ok starts) :
    Dense start end_ bucket tz starts := by
  obtain ⟨_, _, n, _, stop, rfl⟩ := bucketStarts_eq_ok.mp listed
  have zeroth : axisEntry bucket tz (floorLocal bucket tz start) 0 = floorLocal bucket tz start := if_pos rfl
  have notAfter : tz.toUtc (floorLocal bucket tz start) ≤ start := floorLocal_le noSkip
  have ended := stop.stops.resolve_right (by simp)
  obtain ⟨m, rfl⟩ : ∃ m, n = m + 1 := by
    refine Nat.exists_eq_succ_of_ne_zero fun none_ => ?_
    rw [none_, zeroth] at ended
    omega
  constructor
  · simp
  · rw [List.map_map, List.pairwise_map]
    have ascend := strictMono_nat_of_lt_succ (@axisEntry_lt bucket tz start near)
    exact List.pairwise_lt_range.imp fun order => ascend order
  · intro first head
    rw [List.range_succ_eq_map, List.map_cons, List.head?_cons, zeroth, Option.some.injEq] at head
    rwa [← head]
  · intro b member
    obtain ⟨k, inside, rfl⟩ := List.mem_map.mp member
    exact stop.before k (List.mem_range.mp inside)
  · intro last final
    rw [List.range_succ, List.map_append, List.map_singleton, List.getLast?_concat, Option.some.injEq] at final
    refine ⟨_, ?_, ended⟩
    rw [← final, nextBucket_entry m fun _ => Bucket.floorWall_starts _, if_pos (stop.fits m (Nat.lt_succ_self m))]
  · exact bucketStarts_take listed

/-- An axis always ends, and it covers its window exactly where it stays in range. -/
theorem axis_is_dense_iff (noSkip : tz.NoHourSkipped) (near : ChangesWithinDay tz.initial tz.transitions)
    (nonempty : start < end_) (bucket : Bucket) :
    (∀ limit e, bucketStarts start end_ bucket tz limit = .error e → e = .overflowError) ∧
      ((∃ starts, bucketStarts start end_ bucket tz none = .ok starts ∧ Dense start end_ bucket tz starts) ↔
        AxisFits start end_ bucket tz none) := by
  refine ⟨fun limit e raised => bucketStarts_error raised, ?_⟩
  rw [axisFits_iff]
  constructor
  · rintro ⟨starts, listed, _⟩
    exact ⟨starts, listed⟩
  · rintro ⟨starts, listed⟩
    exact ⟨starts, listed, dense_of_listed noSkip near nonempty listed⟩

/-- Santiago, where the clock goes from 00:00 to 01:00 on 2026-09-06. -/
def santiago : Zone := ⟨-4 * microsPerHour, [⟨1788667200000000, -3 * microsPerHour⟩], by decide, by decide⟩

private theorem santiago_hours : santiago.NoHourSkipped := by
  refine ⟨?_, trivial⟩
  intro k
  simp only [santiago, microsPerHour, microsPerSecond]
  omega

/-- Three days around a midnight that no clock shows. -/
theorem axis_is_dense_skip : ∃ starts, bucketStarts 1788609600000000 1788782400000000 .day santiago none = .ok starts ∧
    Dense 1788609600000000 1788782400000000 .day santiago starts := by
  refine (axis_is_dense_iff santiago_hours ⟨by decide, trivial⟩ (by decide) .day).2.mpr ?_
  exact axisFits_iff.mpr (Except.exists_ok (by decide +kernel))

/-- On the last day of the range no midnight comes after the end. -/
theorem axis_leaves_range : Zone.utc.NoHourSkipped ∧ ChangesWithinDay Zone.utc.initial Zone.utc.transitions ∧
    InRange 253402214400000000 ∧ InRange 253402257600000000 ∧ (253402214400000000 : ℤ) < 253402257600000000 ∧
    bucketStarts 253402214400000000 253402257600000000 .day .utc none = .error .overflowError := by
  refine ⟨trivial, trivial, ?_⟩
  decide +kernel

end CliproxyUsage
