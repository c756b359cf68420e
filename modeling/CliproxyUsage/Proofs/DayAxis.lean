import CliproxyUsage.Proofs.AxisAgrees

/-! # The day and week axes at offset changes

Days and weeks are listed and floored on the wall clock. The two differ only at a midnight that a change carries the
clock across, from the change on until the slower of its two clocks reaches that midnight.
-/

namespace CliproxyUsage

open Python

/-- A midnight that the change carries the clock strictly across comes after the window, or the slower of the two clocks
has reached it at the start. -/
def KeepsMidnights (bucket : Bucket) (start end_ old : ℤ) (t : Transition) : Prop :=
  ∀ m, StartsBucket bucket m → t.at_ + min old t.offset < m → m < t.at_ + max old t.offset →
    end_ ≤ t.at_ ∨ m ≤ start + min old t.offset

variable {tz : Zone} {bucket : Bucket} {start end_ x m : ℤ} {starts : List LocalTime}

section Keeps

variable (days : bucket ≠ .hour) (keeps : EachChange (KeepsMidnights bucket start end_) tz.initial tz.transitions)

include keeps

/-- In the window a bucket start denotes an instant exactly when the wall clock has reached it. -/
private theorem toUtc_le_iff_reached (onBoundary : StartsBucket bucket m) (from_ : start ≤ x) (upTo : x < end_) :
    tz.toUtc ⟨m, false⟩ ≤ x ↔ m ≤ (tz.localAt x).wall := by
  refine Zone.toUtc_le_iff (keeps.mono ?_)
  intro old t kept above below
  rcases kept m onBoundary above below with after | reached
  · exact .inl (upTo.trans_le after)
  · exact .inr (reached.trans (by omega))

include days

private theorem places_of_midnights (from_ : start ≤ x) (upTo : x < end_) :
    ∃ k : ℕ, Places tz bucket start x k ∧
      bucket.floorWall (tz.localAt x).wall = bucket.floorWall (tz.localAt start).wall + k * bucket.period := by
  have floor := @floorLocal_days bucket tz days
  have entry := @axisEntry_days bucket tz start days
  have onBoundary (k : ℤ) : StartsBucket bucket (bucket.floorWall (tz.localAt start).wall + k * bucket.period) :=
    Bucket.starts_add (Bucket.floorWall_starts _) k
  have positive := bucket.period_pos
  have opened := (toUtc_le_iff_reached keeps (Bucket.floorWall_starts (tz.localAt start).wall) le_rfl
    (from_.trans_lt upTo)).mpr (Bucket.floorWall_le _).1
  have reached := (toUtc_le_iff_reached keeps (Bucket.floorWall_starts _) from_ upTo).mp (opened.trans from_)
  obtain ⟨k, apart⟩ := Bucket.exists_periods_of_le (Bucket.floorWall_starts (tz.localAt start).wall)
    (Bucket.floorWall_starts (tz.localAt x).wall) (Bucket.le_floorWall (Bucket.floorWall_starts _) reached)
  have bounds := @Bucket.floorWall_le bucket (tz.localAt x).wall
  refine ⟨k, ⟨?_, ?_, ?_, ?_⟩, apart⟩
  · rw [floor, entry, apart]
  · rw [floor, entry, apart]
  · intro i
    rw [entry, toUtc_le_iff_reached keeps (onBoundary _) from_ upTo]
    constructor
    · intro reached
      have least := Bucket.le_floorWall (onBoundary i) reached
      by_contra past
      have scaled : ((k : ℤ) + 1) * bucket.period ≤ i * bucket.period :=
        Int.mul_le_mul_of_nonneg_right (by omega) positive.le
      rw [add_mul] at scaled
      omega
    · intro least
      have scaled : (i : ℤ) * bucket.period ≤ k * bucket.period :=
        Int.mul_le_mul_of_nonneg_right (by exact_mod_cast least) positive.le
      omega
  · intro fits next
    rw [entry] at next
    rw [floor] at fits
    push_cast at next
    rw [add_mul] at next
    obtain ⟨least, _⟩ := fits
    obtain ⟨_, most⟩ := next
    constructor
    · exact least.trans bounds.1
    · omega

/-- A window that keeps its midnights at every change agrees with its floors. -/
theorem days_agree (nonempty : start < end_) (listed : bucketStarts start end_ bucket tz none = .ok starts) :
    AxisAgrees tz bucket start end_ starts := by
  obtain ⟨k, place, apart⟩ := places_of_midnights days keeps le_rfl nonempty
  have zero : k = 0 := by
    by_contra some_
    have positive := bucket.period_pos
    have product : 0 < (k : ℤ) * bucket.period := Int.mul_pos (by omega) positive
    omega
  rw [zero] at place
  apply agrees_of_places listed nonempty place
  · intro x from_ upTo
    obtain ⟨k, place, _⟩ := places_of_midnights days keeps from_ upTo
    exact ⟨k, place⟩
  · intro k _
    rw [axisEntry_days days]
    exact Bucket.starts_add (Bucket.floorWall_starts _) k

end Keeps

section Kept

variable {t : Transition} {earlier later : List Transition} (civil : tz.Civil)
  (split : tz.transitions = earlier ++ t :: later)

include civil split

/-- On the day before a change, all the earlier ones are settled. -/
private theorem toUtc_le_iff_before (recent : t.at_ - microsPerDay ≤ x) (ahead : x < t.at_) :
    tz.toUtc ⟨m, false⟩ ≤ x ↔ m ≤ x + offsetAfter tz.initial earlier := by
  have positive : 0 < microsPerDay := by decide
  have wall : (tz.localAt x).wall = x + offsetAfter tz.initial earlier := by
    rw [Zone.localAt, Zone.offsetAt_before split (by omega) ahead]
  rw [← wall]
  refine Zone.toUtc_le_iff (eachChange_iff.mpr ?_)
  intro earlier' t' later' split' above below
  have change := eachChange_iff.mp civil.changes earlier' t' later' split'
  rw [abs_le] at change
  rcases Zone.same_or_apart split split' with ⟨_, rfl⟩ | apart | apart
  · exact .inl ahead
  · exact .inr (by omega)
  · exact .inl (by omega)

variable (days : bucket ≠ .hour) (listed : bucketStarts start end_ bucket tz none = .ok starts)
  (agrees : AxisAgrees tz bucket start end_ starts)

include days agrees

/-- A midnight that a forward change skips denotes an instant after those of its day. -/
private theorem not_skipped (onBoundary : StartsBucket bucket m) (from_ : start ≤ x) (upTo : x < end_)
    (passed : t.at_ ≤ x) (skipped : t.at_ + offsetAfter tz.initial earlier < m) (under : m < t.at_ + t.offset)
    (early : x + offsetAfter tz.initial earlier < m) : False := by
  have change := eachChange_iff.mp civil.changes earlier t later split
  rw [abs_le] at change
  have period := Bucket.day_le_period days
  have floor := (agrees.floor from_ upTo).1.2
  have bounds := @Bucket.floorWall_le bucket (tz.localAt x).wall
  have wall : (tz.localAt x).wall = x + t.offset := by
    rw [Zone.localAt, Zone.offsetAt_after split passed (by omega)]
  have same : bucket.floorWall (tz.localAt x).wall = m := by
    apply le_antisymm
    · exact Bucket.starts_le onBoundary (Bucket.floorWall_starts _) (by omega)
    · exact Bucket.le_floorWall onBoundary (by omega)
  rw [floorLocal_days days, same, Zone.toUtc_skipped split skipped.le under] at floor
  omega

include listed

/-- A midnight that a backward change repeats is listed before the day that it ends is over. -/
private theorem not_repeated (onBoundary : StartsBucket bucket m) (from_ : start ≤ x) (upTo : x < end_)
    (passed : t.at_ ≤ x) (latest : start < t.at_ ∨ x = start) (reached : m < t.at_ + offsetAfter tz.initial earlier)
    (again : t.at_ + t.offset < m) (early : x + t.offset < m) : False := by
  have change := eachChange_iff.mp civil.changes earlier t later split
  obtain ⟨_, bound, _⟩ := Zone.bounds_around split
  rw [abs_le] at change
  rw [abs_lt] at bound
  have period := Bucket.day_le_period days
  have positive : 0 < microsPerDay := by decide
  have before {m u : ℤ} := @toUtc_le_iff_before tz u m t earlier later civil split
  have wall : (tz.localAt x).wall = x + t.offset := by
    rw [Zone.localAt, Zone.offsetAt_after split passed (by omega)]
  have floor := agrees.floor from_ upTo
  have bounds := @Bucket.floorWall_le bucket (tz.localAt x).wall
  have bounds' := @Bucket.floorWall_le bucket (tz.localAt start).wall
  -- Just before the change the midnight is reached, and the floor of `x` well before it.
  have first : tz.toUtc ⟨m, false⟩ ≤ m - offsetAfter tz.initial earlier := (before (by omega) (by omega)).mpr (by omega)
  have later_ : ¬tz.toUtc ⟨m, false⟩ ≤ m - offsetAfter tz.initial earlier - 1 := by
    rw [before (by omega) (by omega)]
    omega
  have sooner : tz.toUtc ⟨bucket.floorWall (tz.localAt x).wall, false⟩ ≤ m - offsetAfter tz.initial earlier - 1 := by
    rw [before (by omega) (by omega)]
    omega
  have opens : bucket.floorWall (tz.localAt start).wall ≤ m := by
    rcases latest with ahead | rfl
    · apply Bucket.starts_le onBoundary (Bucket.floorWall_starts _)
      by_cases recent : t.at_ - 2 * microsPerDay ≤ start
      · have offset : (tz.localAt start).wall = start + offsetAfter tz.initial earlier := by
          rw [Zone.localAt, Zone.offsetAt_before split recent ahead]
        omega
      · have near := (tz.localAt_bounds start).2
        omega
    · omega
  obtain ⟨k, apart⟩ := Bucket.exists_periods_of_le (Bucket.floorWall_starts (tz.localAt start).wall) onBoundary opens
  have member := axisEntry_mem listed (k := k) (by
    intro i least
    have scaled : (i : ℤ) * bucket.period ≤ k * bucket.period :=
      Int.mul_le_mul_of_nonneg_right (by exact_mod_cast least) bucket.period_pos.le
    have soon := (@before (bucket.floorWall (tz.localAt start).wall + i * bucket.period)
      (m - offsetAfter tz.initial earlier) (by omega) (by omega)).mpr (by omega)
    rw [axisEntry_days days]
    omega)
  rw [axisEntry_days days, ← apart] at member
  have last := floor.2 ⟨List.mem_map_of_mem member, first.trans (by omega)⟩
  rw [floorLocal_days days] at last
  omega

end Kept

/-- The days or weeks of a window agree with its floors exactly where the window keeps its midnights at every change. -/
theorem days_agree_iff (days : bucket ≠ .hour) (civil : tz.Civil) (nonempty : start < end_)
    (listed : bucketStarts start end_ bucket tz none = .ok starts) :
    AxisAgrees tz bucket start end_ starts ↔
      EachChange (KeepsMidnights bucket start end_) tz.initial tz.transitions := by
  constructor
  · intro agrees
    refine eachChange_iff.mpr fun earlier t later split m onBoundary above below => ?_
    by_contra torn
    rw [not_or, not_le, not_le] at torn
    obtain ⟨inside, early⟩ := torn
    rcases le_total (offsetAfter tz.initial earlier) t.offset with forward | back
    · exact not_skipped civil split days agrees (x := max start t.at_) onBoundary (by omega) (by omega) (by omega)
        (by omega) (by omega) (by omega)
    · exact not_repeated civil split days listed agrees (x := max start t.at_) onBoundary (by omega) (by omega) (by omega)
        (by omega) (by omega) (by omega) (by omega)
  · exact fun keeps => days_agree days keeps nonempty listed

end CliproxyUsage
