import CliproxyUsage.Proofs.DayAxis
import CliproxyUsage.Proofs.HourAxis

/-! # Where the axis agrees with the floor

The axis of a window agrees with the floors of its instants exactly where the window keeps its buckets at each
offset change of the zone. What that asks of a change depends on where it comes: after the window, in it, or
before it and with the clocks settled or not.
-/

namespace CliproxyUsage

open Python

/-- How a window keeps its buckets at the change from the offset `old`. -/
def KeepsBuckets (start end_ : ℤ) : Bucket → ℤ → Transition → Prop
  | .hour => KeepsHours start end_
  | .day => KeepsMidnights .day start end_
  | .week => KeepsMidnights .week start end_

/-- The axis of a window agrees with its floors, in every zone as the tz database has them and for every granularity,
exactly where the window keeps its buckets at every offset change. -/
theorem axis_agrees_iff {tz : Zone} (civil : tz.Civil) {bucket : Bucket} {start end_ : ℤ} (nonempty : start < end_)
    {starts : List LocalTime} (listed : bucketStarts start end_ bucket tz none = .ok starts) :
    AxisAgrees tz bucket start end_ starts ↔
      EachChange (KeepsBuckets start end_ bucket) tz.initial tz.transitions := by
  cases bucket with
  | hour => exact hours_agree_iff civil nonempty listed
  | day => exact days_agree_iff (by decide) civil nonempty listed
  | week => exact days_agree_iff (by decide) civil nonempty listed

/-- Berlin: local mean time until 1893-04-01, and the clock changes of 2026. -/
def berlin : Zone :=
  ⟨3208 * microsPerSecond, [⟨-2422054408000000, 1 * microsPerHour⟩, ⟨1774746000000000, 2 * microsPerHour⟩,
    ⟨1792890000000000, 1 * microsPerHour⟩], by decide, by decide⟩

/-- The hours around the start of daylight saving time, long after the change of 1893 by six and a half minutes. -/
theorem axis_agrees_iff_berlin : ∃ starts, bucketStarts 1774738800000000 1774753200000000 .hour berlin none = .ok starts ∧
    AxisAgrees berlin .hour 1774738800000000 1774753200000000 starts := by
  obtain ⟨starts, listed⟩ : ∃ starts,
      bucketStarts 1774738800000000 1774753200000000 .hour berlin none = .ok starts := by
    apply Except.exists_ok
    decide +kernel
  have civil : berlin.Civil := by
    refine ⟨⟨by decide, by decide, by decide, trivial⟩, by decide, ?_⟩
    intro t member
    simp only [berlin, List.mem_cons, List.not_mem_nil, or_false] at member
    rcases member with rfl | rfl | rfl <;> decide
  have keeps : EachChange (KeepsBuckets 1774738800000000 1774753200000000 .hour) berlin.initial berlin.transitions := by
    refine ⟨?_, .regular (.inr (by decide)), .ahead (by decide), trivial⟩
    exact .settled 1774742400000000 (by decide) (by decide) (by decide) (.inl (by decide))
  exact ⟨starts, listed, (axis_agrees_iff civil (by decide) listed).mpr keeps⟩

/-- Lord Howe Island, half an hour ahead from 2026-10-04 02:00. -/
def lordHowe : Zone :=
  ⟨10 * microsPerHour + 1800 * microsPerSecond, [⟨1791041400000000, 11 * microsPerHour⟩], by decide, by decide⟩

def lordHoweHours : List LocalTime :=
  [⟨1791075600000000, false⟩, ⟨1791081000000000, false⟩, ⟨1791084600000000, false⟩, ⟨1791088200000000, false⟩]

/-- St. John's, an hour back from 2010-11-07 00:01. -/
def stJohns : Zone :=
  ⟨-2 * microsPerHour - 1800 * microsPerSecond, [⟨1289097060000000, -3 * microsPerHour - 1800 * microsPerSecond⟩],
    by decide, by decide⟩

def stJohnsDays : List LocalTime := [⟨1289001600000000, false⟩, ⟨1289088000000000, false⟩, ⟨1289174400000000, false⟩]

/-- The hours after the half-hour change start at half past, and 03:10 local is not in the last one listed; the
quarter to midnight that the clocks turn back to is not in the day listed at the midnight before. -/
theorem axis_misses_floor :
    bucketStarts 1791037800000000 1791052200000000 .hour lordHowe none = .ok lordHoweHours ∧
    floorToBucket 1791043800000000 .hour lordHowe = .ok ⟨1791082800000000, false⟩ ∧
    ¬AxisAgrees lordHowe .hour 1791037800000000 1791052200000000 lordHoweHours ∧
    bucketStarts 1289044800000000 1289217600000000 .day stJohns none = .ok stJohnsDays ∧
    floorToBucket 1289097900000000 .day stJohns = .ok ⟨1289001600000000, false⟩ ∧
    ¬AxisAgrees stJohns .day 1289044800000000 1289217600000000 stJohnsDays := by
  refine ⟨by decide +kernel, by decide +kernel, ?_, by decide +kernel, by decide +kernel, ?_⟩
  · intro agrees
    obtain ⟨f, floored, greatest⟩ := agrees.floors 1791043800000000 (by decide) (by decide)
    rw [show floorToBucket 1791043800000000 .hour lordHowe = .ok ⟨1791082800000000, false⟩ by decide +kernel] at floored
    cases floored
    exact absurd greatest.1.1 (by decide +kernel)
  · intro agrees
    obtain ⟨f, floored, greatest⟩ := agrees.floors 1289097900000000 (by decide) (by decide)
    rw [show floorToBucket 1289097900000000 .day stJohns = .ok ⟨1289001600000000, false⟩ by decide +kernel] at floored
    cases floored
    exact absurd (greatest.2 ⟨show stJohns.toUtc ⟨1289088000000000, false⟩ ∈ _ by decide +kernel, by decide +kernel⟩)
      (by decide +kernel)

end CliproxyUsage
