import CliproxyUsage.Proofs.AxisRange

/-! # Axes always end

Between two instants well inside the range of `datetime`, every zone and every granularity has a
dense axis: the entries from the floor of the start pass the end before they leave the range.
-/

namespace CliproxyUsage

open Python

/-- At least ten days inside the range of `datetime`. -/
def Ordinary (instant : ℤ) : Prop :=
  minWall + 10 * microsPerDay ≤ instant ∧ instant ≤ maxWall - 10 * microsPerDay

instance (instant : ℤ) : Decidable (Ordinary instant) := inferInstanceAs (Decidable (_ ∧ _))

variable {tz : Zone} {start end_ : ℤ}

/-- Counting on from `first` in steps of `unit` passes a bound by at most one step. -/
private theorem exists_steps (first bound : ℤ) {unit : ℤ} (positive : 0 < unit) :
    ∃ n : ℕ, bound ≤ first + n * unit ∧
      ∀ k ≤ n, first ≤ first + k * unit ∧ first + k * unit ≤ max first (bound + unit) := by
  refine ⟨((bound - first) / unit + 1).toNat, ?_, fun k inside => ⟨?_, ?_⟩⟩
  · have passed := Int.lt_ediv_add_one_mul_self (bound - first) positive
    have count : (bound - first) / unit + 1 ≤ (((bound - first) / unit + 1).toNat : ℤ) := Int.self_le_toNat _
    have further := Int.mul_le_mul_of_nonneg_right count positive.le
    omega
  · have nonneg : 0 ≤ (k : ℤ) * unit := Int.mul_nonneg (Int.natCast_nonneg k) positive.le
    omega
  · rcases Nat.eq_zero_or_pos k with rfl | some_
    · simp
    · have under := Int.ediv_mul_le (bound - first) positive.ne'
      have count : (k : ℤ) ≤ (bound - first) / unit + 1 := by omega
      have near := Int.mul_le_mul_of_nonneg_right count positive.le
      rw [add_mul, one_mul] at near
      omega

private theorem inRange_iff {wall : ℤ} : InRange wall ↔ -62135596800000000 ≤ wall ∧ wall ≤ 253402300799999999 := Iff.rfl

private theorem ordinary_iff {instant : ℤ} :
    Ordinary instant ↔ -62134732800000000 ≤ instant ∧ instant ≤ 253401436799999999 := Iff.rfl

private theorem localAt_near (tz : Zone) (u : ℤ) :
    u - 86400000000 < (tz.localAt u).wall ∧ (tz.localAt u).wall < u + 86400000000 := tz.localAt_bounds u

private theorem toUtc_near (tz : Zone) (l : LocalTime) :
    l.wall - 86400000000 < tz.toUtc l ∧ tz.toUtc l < l.wall + 86400000000 := tz.toUtc_bounds l

/-- An axis between ordinary instants stays in range, in every zone. -/
theorem axisFits_of_ordinary (ordinary : Ordinary start) (ordinary' : Ordinary end_) (bucket : Bucket)
    (limit : Option ℕ) : AxisFits start end_ bucket tz limit := by
  rw [ordinary_iff] at ordinary ordinary'
  have local_ := localAt_near tz start
  have floored : (floorLocal bucket tz start).wall ≤ (tz.localAt start).wall ∧
      (tz.localAt start).wall < (floorLocal bucket tz start).wall + bucket.period := Bucket.floorWall_le _
  have week : bucket.period ≤ 604800000000 := bucket.period_le_week
  have positive := bucket.period_pos
  refine ⟨inRange_iff.mpr (by omega), inRange_iff.mpr (by omega), ?_⟩
  by_cases hours : bucket = .hour
  · subst hours
    -- Hours advance in absolute time.
    have opening := toUtc_near tz (floorLocal .hour tz start)
    obtain ⟨n, ended, inside⟩ := exists_steps (tz.toUtc (floorLocal .hour tz start)) end_ positive
    refine ⟨n, .inl (by rwa [toUtc_axisEntry_hour]), fun k less => ?_⟩
    have here := inside k less.le
    have next := inside (k + 1) less
    have wall := toUtc_near tz (axisEntry .hour tz (floorLocal .hour tz start) (k + 1))
    rw [toUtc_axisEntry_hour] at wall
    simp only [Bucket.period] at here next week floored
    simp only [StepFits, inRange_iff, true_implies]
    omega
  · -- Days and weeks advance on the wall clock, within a day of the instant.
    obtain ⟨n, ended, inside⟩ := exists_steps (floorLocal bucket tz start).wall (end_ + 86400000000) positive
    have wall (k : ℕ) : (axisEntry bucket tz (floorLocal bucket tz start) k).wall =
        (floorLocal bucket tz start).wall + k * bucket.period := axisEntry_wall hours k
    refine ⟨n, .inl ?_, fun k less => ⟨?_, fun hour => absurd hour hours⟩⟩
    · have last := toUtc_near tz (axisEntry bucket tz (floorLocal bucket tz start) n)
      rw [wall] at last
      omega
    · have next := inside (k + 1) less
      rw [inRange_iff, wall]
      omega

theorem bucketStarts_total (ordinary : Ordinary start) (ordinary' : Ordinary end_) (bucket : Bucket)
    (limit : Option ℕ) : ∃ starts, bucketStarts start end_ bucket tz limit = .ok starts :=
  axisFits_iff.mp (axisFits_of_ordinary ordinary ordinary' bucket limit)

/-- The search of an ordinary stretch of time stays in range, in every zone. -/
theorem searchFits_of_ordinary (ordinary : Ordinary start) (ordinary' : Ordinary end_) (first : Bucket) :
    SearchFits start end_ tz first := fun bucket _ _ => axisFits_of_ordinary ordinary ordinary' bucket _

end CliproxyUsage
