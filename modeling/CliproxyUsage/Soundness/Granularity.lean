import CliproxyUsage.Proofs.AxisRange
import CliproxyUsage.Proofs.Buckets

/-! # The granularity of an axis

An axis has the finest granularity, from the requested one on, whose complete list of buckets keeps
the bound, or else weeks. The search lists one bucket above the bound, which decides as the complete
list does, and an automatic choice keeps the bound in every zone.
-/

namespace CliproxyUsage

open Python

section Search

variable (start end_ : ℤ) (tz : Zone)

/-- The complete list of a granularity keeps the bound. -/
def KeepsBound (bucket : Bucket) : Prop :=
  ∃ starts, bucketStarts start end_ bucket tz none = .ok starts ∧ starts.length ≤ maxBuckets

/-- The complete list of a granularity exceeds the bound. -/
def ExceedsBound (bucket : Bucket) : Prop :=
  ∃ starts, bucketStarts start end_ bucket tz none = .ok starts ∧ maxBuckets < starts.length

/-- The finest granularity from `first` on that keeps the bound, or weeks. -/
structure FinestFrom (first bucket : Bucket) : Prop where
  notFiner : first.period ≤ bucket.period
  keeps : bucket = .week ∨ KeepsBound start end_ tz bucket
  skipped : ∀ finer, first.period ≤ finer.period → finer.period < bucket.period → ExceedsBound start end_ tz finer

end Search

variable {tz : Zone} {start end_ : ℤ} {bucket : Bucket}

theorem FinestFrom.refl (keeps : bucket = .week ∨ KeepsBound start end_ tz bucket) :
    FinestFrom start end_ tz bucket bucket where
  notFiner := le_rfl
  keeps := keeps
  skipped _ least less := absurd less (not_lt.mpr least)

/-- One entry above the bound decides as the complete list does. -/
private theorem take_length_le_iff (starts : List LocalTime) :
    (starts.take (maxBuckets + 1)).length ≤ maxBuckets ↔ starts.length ≤ maxBuckets := by
  rw [List.length_take]
  omega

/-- The loop ends at the finest granularity that keeps the bound. -/
private theorem coarsen_finest {fuel : ℕ} (enough : bucket.coarserCount ≤ fuel)
    (fits : ∀ other : Bucket, bucket.period ≤ other.period → AxisFits start end_ other tz none) :
    ∃ result, coarsen start end_ tz fuel bucket = .ok result ∧ FinestFrom start end_ tz bucket result := by
  induction fuel generalizing bucket with
  | zero =>
    have week : bucket = .week := by
      cases bucket with
      | hour | day => cases enough
      | week => rfl
    exact ⟨bucket, rfl, FinestFrom.refl (.inl week)⟩
  | succ fuel ih =>
    rw [coarsen]
    cases step : coarser bucket with
    | none => exact ⟨bucket, rfl, FinestFrom.refl (.inl (Bucket.eq_week_of_coarser step))⟩
    | some next =>
      obtain ⟨starts, listed⟩ := axisFits_iff.mp (fits bucket le_rfl)
      simp only [bucketStarts_take listed, Except.bind_def, Except.bind_ok, take_length_le_iff]
      split
      · next keeps => exact ⟨bucket, rfl, FinestFrom.refl (.inr ⟨starts, listed, keeps⟩)⟩
      · next exceeds =>
        rw [Bucket.coarserCount_next step] at enough
        have coarserThan := Bucket.period_next step
        obtain ⟨result, coarsened, finest⟩ := ih (Nat.le_of_succ_le_succ enough)
          fun other least => fits other ((coarserThan other).mpr least).le
        refine ⟨result, coarsened, ((coarserThan result).mpr finest.notFiner).le, finest.keeps, fun finer least less => ?_⟩
        rcases least.lt_or_eq with coarser_ | same
        · exact finest.skipped finer ((coarserThan finer).mp coarser_) less
        · rw [← Bucket.period_injective same]
          exact ⟨starts, listed, not_le.mp exceeds⟩

/-- The spans of the automatic choices. -/
theorem autoBucket_span : (autoBucket start end_ = .hour → end_ - start ≤ autoHourMax) ∧
    (autoBucket start end_ = .day → end_ - start ≤ autoDayMax) := by
  rw [autoBucket]
  split_ifs with short medium
  · exact ⟨fun _ => short, nofun⟩
  · exact ⟨nofun, fun _ => medium⟩
  · exact ⟨nofun, nofun⟩

/-- An automatic choice has at most some hundred buckets, whatever the zone. -/
private theorem autoBucket_keeps {starts : List LocalTime} (bounded : autoBucket start end_ ≠ .week)
    (listed : bucketStarts start end_ (autoBucket start end_) tz none = .ok starts) : starts.length ≤ maxBuckets := by
  obtain ⟨shortHours, shortDays⟩ := @autoBucket_span start end_
  generalize autoBucket start end_ = bucket at *
  obtain ⟨_, _, n, _, stop, rfl⟩ := bucketStarts_eq_ok.mp listed
  obtain ⟨fromStart, _⟩ := tz.localAt_bounds start
  have near : (tz.localAt start).wall < (floorLocal bucket tz start).wall + bucket.period := (Bucket.floorWall_le _).2
  rw [List.length_map, List.length_range, show maxBuckets = 1000 from rfl]
  by_contra many
  have before := stop.before 1000 (by omega)
  cases bucket with
  | hour =>
    have short := shortHours rfl
    obtain ⟨below, _⟩ := tz.toUtc_bounds (floorLocal .hour tz start)
    rw [toUtc_axisEntry_hour] at before
    simp only [Bucket.period, autoHourMax, microsPerHour, microsPerDay, microsPerSecond, Nat.cast_ofNat] at *
    omega
  | day =>
    have short := shortDays rfl
    obtain ⟨below, _⟩ := tz.toUtc_bounds (axisEntry .day tz (floorLocal .day tz start) 1000)
    have entry : (axisEntry .day tz (floorLocal .day tz start) 1000).wall =
      (floorLocal .day tz start).wall + 1000 * microsPerDay := rfl
    rw [entry] at below
    simp only [Bucket.period, autoDayMax, microsPerDay, microsPerSecond] at *
    omega
  | week => exact bounded rfl

/-- The granularity of an axis whose dates stay in range is the finest one, from the requested or automatic one on,
whose complete list keeps the bound, or weeks. Listing one bucket above the bound decides as the complete list
does, and an automatic choice stands. -/
theorem effective_bucket_finest (start end_ : ℤ) (requested : Option Bucket) (tz : Zone)
    (fits : ∀ bucket : Bucket, (requested.getD (autoBucket start end_)).period ≤ bucket.period →
      AxisFits start end_ bucket tz none) :
    (∃ result, effectiveBucket start end_ requested tz = .ok result ∧
      FinestFrom start end_ tz (requested.getD (autoBucket start end_)) result ∧
      (requested = none → result = autoBucket start end_)) ∧
    ∀ bucket : Bucket, (requested.getD (autoBucket start end_)).period ≤ bucket.period →
      ∃ starts capped, bucketStarts start end_ bucket tz none = .ok starts ∧
        bucketStarts start end_ bucket tz (some (maxBuckets + 1)) = .ok capped ∧
        (capped.length ≤ maxBuckets ↔ starts.length ≤ maxBuckets) := by
  refine ⟨?_, fun bucket least => ?_⟩
  · obtain ⟨result, found, finest⟩ := coarsen_finest (Bucket.coarserCount_le _) fits
    refine ⟨result, found, finest, ?_⟩
    rintro rfl
    rcases finest.notFiner.lt_or_eq with coarser_ | same
    · -- A coarser result skips the automatic choice, which has few buckets.
      obtain ⟨starts, listed, exceeds⟩ := finest.skipped _ le_rfl coarser_
      have bounded : autoBucket start end_ ≠ .week := by
        intro week
        rw [Option.getD_none, week] at coarser_
        exact absurd coarser_ (not_lt.mpr result.period_le_week)
      exact absurd (autoBucket_keeps bounded listed) (not_le.mpr exceeds)
    · exact (Bucket.period_injective same).symm
  · obtain ⟨starts, listed⟩ := axisFits_iff.mp (fits bucket least)
    exact ⟨starts, _, listed, bucketStarts_take listed _, take_length_le_iff starts⟩

/-- The spring change of 2026. -/
def chicago : Zone := ⟨-6 * microsPerHour, [⟨1772956800000000, -5 * microsPerHour⟩], by decide, by decide⟩

/-- One hour more than the bound. -/
theorem effective_bucket_finest_past :
    (∃ result, effectiveBucket 1767247200000000 1770850800000000 (some .hour) chicago = .ok result ∧
      FinestFrom 1767247200000000 1770850800000000 chicago .hour result ∧
      (some Bucket.hour = none → result = autoBucket 1767247200000000 1770850800000000)) ∧
    ∀ bucket : Bucket, Bucket.hour.period ≤ bucket.period →
      ∃ starts capped, bucketStarts 1767247200000000 1770850800000000 bucket chicago none = .ok starts ∧
        bucketStarts 1767247200000000 1770850800000000 bucket chicago (some (maxBuckets + 1)) = .ok capped ∧
        (capped.length ≤ maxBuckets ↔ starts.length ≤ maxBuckets) :=
  effective_bucket_finest 1767247200000000 1770850800000000 (some .hour) chicago fun bucket _ =>
    axisFits_iff.mpr (bucketStarts_total (by decide) (by decide) bucket none)

example : effectiveBucket 1767247200000000 1770847200000000 (some .hour) chicago = .ok .hour ∧
    effectiveBucket 1767247200000000 1770850800000000 (some .hour) chicago = .ok .day := by decide +kernel

end CliproxyUsage
