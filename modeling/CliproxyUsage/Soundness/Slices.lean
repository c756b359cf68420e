import CliproxyUsage.Proofs.Axis

/-! # Slices land in the bucket of their requests

The grouped query knows a request only by its 15-minute slice. Every bucket edge is a whole number
of slices, so the bucket that contains the slice contains the request's instant.
-/

namespace CliproxyUsage

open Python Sqlite

/-- SQLite reads the timestamp of the row as the second of an instant, and prints it as that second. -/
def RequestRow.ReadAt (row : RequestRow) (t : ℤ) : Prop :=
  unixSeconds row.timestamp = some (t / microsPerSecond) ∧ datetime row.timestamp = some (tsParam t)

/-- Such is every stamp with an hour of the day and an offset that SQLite knows, at the server's instant. -/
theorem Stamp.readAt {host : Host} {stamp : Stamp} {row : RequestRow} {t : ℤ} (written : row.timestamp = stamp.text)
    (early : stamp.hour ≤ 23) (near : stamp.NearZone) (parsed : parseTs host row.timestamp = .ok t) : row.ReadAt t := by
  rw [written] at parsed
  obtain ⟨v, read, seconds⟩ := timeValue_of_parseTs early near parsed
  constructor
  · rw [written, unixSeconds, read, Option.map_some, seconds, microsPerSecond]
  · rw [written, datetime_early early read, seconds]
    rfl

private theorem second_of_counted {start end_ t : ℤ} {filters : Filters} {row : RequestRow} (reads : row.ReadAt t)
    (counts : counted (some ⟨some start, end_⟩) filters row) :
    start / microsPerSecond ≤ t / microsPerSecond ∧ (t / microsPerSecond + 1) * microsPerSecond ≤ end_ := by
  simp only [counted, Option.all_some, Window.admits, reads.2, Bool.and_eq_true] at counts
  obtain ⟨⟨⟨⟨from_, upTo⟩, _⟩, _⟩, _⟩ := counts
  have since := day_clock_le.mp (of_decide_eq_true from_)
  have before := not_le.mp (mt day_clock_le.mpr (not_le.mpr (of_decide_eq_true upTo)))
  refine ⟨since, ?_⟩
  rw [microsPerSecond] at before ⊢
  omega

/-- The bucket that the index finds for a counted request starts at or before the request's instant, and
the next one after it. -/
theorem slices_land_in_their_bucket {tz : Zone} (noSkip : tz.NoHourSkipped)
    (divide : tz.OffsetsDivide (sliceSeconds * microsPerSecond)) {start end_ : ℤ} {bucket : Bucket}
    {starts : List LocalTime} (listed : bucketStarts start end_ bucket tz none = .ok starts) {filters : Filters}
    {row : RequestRow} {t : ℤ} (reads : row.ReadAt t) (since : 0 ≤ t)
    (counts : counted (some ⟨some start, end_⟩) filters row) :
    ∃ i b, row.sliceNo.bind (slicePosition (edges tz starts)) = some i ∧ starts[i]? = some b ∧
      tz.toUtc b ≤ t ∧ ∀ next, starts[i + 1]? = some next → t < tz.toUtc next := by
  obtain ⟨from_, upTo⟩ := second_of_counted reads counts
  obtain ⟨i, b, position, at_, notAfter, later⟩ := position_bounds noSkip divide listed from_ upTo
  -- From 1970 on, truncating the second to a slice rounds down.
  have positive : 0 ≤ t / microsPerSecond := Int.ediv_nonneg since (by decide)
  rw [Int.tdiv_eq_ediv_of_nonneg positive] at notAfter later
  simp only [sliceSeconds, microsPerSecond] at notAfter later
  refine ⟨i, b, ?_, at_, by omega, ?_⟩
  · rw [RequestRow.sliceNo, reads.1, Option.map_some, Option.bind_some]
    exact position
  · intro next following
    have start' := later next following
    omega

def slicedRow (timestamp : String) : RequestRow :=
  ⟨timestamp, "sk-a-0001", "m", "dev@example.com", "0", 1200, 100, 10, 0, 0, 110, 0⟩

/-- New York over the end of daylight saving time in 2026. -/
def newYork : Zone :=
  ⟨-4 * microsPerHour, [⟨1793512800000000, -5 * microsPerHour⟩], by decide, by decide⟩

/-- Half an hour into the repeated hour. -/
theorem slices_land_in_their_bucket_repeated :
    ∃ starts, bucketStarts 1793505600000000 1793520000000000 .hour newYork none = .ok starts ∧
      ∃ i b, (slicedRow "2026-11-01T01:31:00.5-05:00").sliceNo.bind (slicePosition (edges newYork starts)) = some i ∧
        starts[i]? = some b ∧ newYork.toUtc b ≤ 1793514660500000 ∧
        ∀ next, starts[i + 1]? = some next → 1793514660500000 < newYork.toUtc next := by
  obtain ⟨starts, listed⟩ : ∃ starts,
      bucketStarts 1793505600000000 1793520000000000 .hour newYork none = .ok starts := by
    apply Except.exists_ok
    decide +kernel
  have noSkip : newYork.NoHourSkipped := ⟨fun k skipped => by
    simp only [newYork, microsPerHour, microsPerSecond] at skipped
    omega, trivial⟩
  have divide : newYork.OffsetsDivide (sliceSeconds * microsPerSecond) := by
    refine ⟨⟨-16, by decide⟩, fun t member => ?_⟩
    rw [List.mem_singleton.mp member]
    exact ⟨-20, by decide⟩
  have reads : (slicedRow "2026-11-01T01:31:00.5-05:00").ReadAt 1793514660500000 := by
    refine @Stamp.readAt .utc ⟨2026, 11, 1, 1, 31, 0, [5], some (true, 5, 0), by decide, by decide, by decide⟩
      _ _ ?_ ?_ ?_ ?_
    · decide
    · decide
    · decide
    · decide +kernel
  have counts : counted (some ⟨some 1793505600000000, 1793520000000000⟩) {}
      (slicedRow "2026-11-01T01:31:00.5-05:00") := by decide +kernel
  exact ⟨starts, listed, slices_land_in_their_bucket noSkip divide listed reads (by decide) counts⟩

/-- A request at the end of the last day of a month is counted a day later, and its slice has no bucket. -/
theorem slices_miss_hour_24 :
    parseTs .utc (slicedRow "2024-01-31T24:00:00Z").timestamp = .ok 1706745600000000 ∧
      counted (some ⟨some 1706824800000000, 1706832000000000⟩) {} (slicedRow "2024-01-31T24:00:00Z") ∧
      ∃ starts, bucketStarts 1706824800000000 1706832000000000 .hour .utc none = .ok starts ∧
        (slicedRow "2024-01-31T24:00:00Z").sliceNo.bind (slicePosition (edges .utc starts)) = none := by
  refine ⟨?_, ?_, [⟨1706824800000000, false⟩, ⟨1706828400000000, false⟩], ?_, ?_⟩ <;> decide +kernel

end CliproxyUsage
