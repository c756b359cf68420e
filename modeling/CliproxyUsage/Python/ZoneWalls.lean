import CliproxyUsage.Python.ZoneSteps

/-! # Shown and skipped wall clocks

On its first pass, a wall clock that some instant shows denotes the first such instant. One that no
instant shows is skipped by a forward change, and resolves to the offset of before the change.
-/

namespace Python

section Walls

variable {u v before wall : ℤ} {ts : List Transition}

/-- Without a change in between, the offset stays. -/
theorem offsetFrom_stays (order : v ≤ u) (none_ : ∀ t ∈ ts, ¬(v < t.at_ ∧ t.at_ ≤ u)) :
    offsetFrom u before ts = offsetFrom v before ts := by
  induction ts generalizing before with
  | nil => rfl
  | cons t rest ih =>
    have here := none_ t (List.mem_cons_self ..)
    rw [offsetFrom, offsetFrom, ih fun t' later => none_ t' (List.mem_cons_of_mem _ later)]
    by_cases passed : t.at_ ≤ v
    · rw [if_pos passed, if_pos (passed.trans order)]
    · rw [if_neg passed, if_neg fun early => here ⟨not_le.mp passed, early⟩]

/-- The offset of a wall clock applies at the instant that it denotes, unless a forward change skips it. -/
private theorem wallOffsetFrom_resolves
    (spaced : ts.Pairwise fun earlier later => earlier.at_ + 2 * microsPerDay < later.at_) :
    offsetFrom (wall - wallOffsetFrom false wall before ts) before ts = wallOffsetFrom false wall before ts ∨
      ∃ earlier t later, ts = earlier ++ t :: later ∧ wallOffsetFrom false wall before ts = offsetAfter before earlier ∧
        t.at_ + offsetAfter before earlier ≤ wall ∧ wall < t.at_ + t.offset := by
  induction ts generalizing before with
  | nil => exact .inl rfl
  | cons t rest ih =>
    obtain ⟨far, spaced⟩ := List.pairwise_cons.mp spaced
    rw [wallOffsetFrom, Transition.wall, if_neg Bool.false_ne_true]
    split
    · next past =>
      have passed : t.at_ ≤ wall - wallOffsetFrom false wall t.offset rest := by
        refine le_sub_wallOffsetFrom (by linarith [le_max_right before t.offset]) fun later member => ?_
        have apart := far later member
        have positive : (0 : ℤ) < 2 * microsPerDay := by decide
        omega
      rcases @ih t.offset spaced with applies | ⟨earlier, t', later, rfl, same, skipped⟩
      · rw [offsetFrom, if_pos passed]
        exact .inl applies
      · exact .inr ⟨t :: earlier, t', later, rfl, same, skipped⟩
    · next under =>
      rw [not_le] at under
      rw [offsetFrom]
      by_cases passed : t.at_ ≤ wall - before
      · have past : t.at_ + before ≤ wall := by omega
        exact .inr ⟨[], t, rest, rfl, rfl, past, by omega⟩
      · exact .inl (if_neg passed)

/-- A wall clock denotes no instant after one that shows it. -/
private theorem sub_wallOffsetFrom_le_of_shown (bounds : ∀ t ∈ ts, |t.offset| < microsPerDay)
    (spaced : ts.Pairwise fun earlier later => earlier.at_ + 2 * microsPerDay < later.at_)
    (shown : u + offsetFrom u before ts = wall) : wall - wallOffsetFrom false wall before ts ≤ u := by
  induction ts generalizing before with
  | nil =>
    rw [offsetFrom] at shown
    rw [wallOffsetFrom]
    omega
  | cons t rest ih =>
    obtain ⟨far, spaced⟩ := List.pairwise_cons.mp spaced
    have small := bounds t (List.mem_cons_self ..)
    have later : ∀ t' ∈ rest, |t'.offset| < microsPerDay := fun t' member => bounds t' (List.mem_cons_of_mem _ member)
    rw [offsetFrom] at shown
    rw [wallOffsetFrom, Transition.wall, if_neg Bool.false_ne_true]
    split at shown
    · next passed =>
      split
      · exact ih later spaced shown
      · next under =>
        -- After the change the wall clock is past what the change skips.
        have current := offsetFrom_bound (u := u) small later
        have reached : t.at_ + t.offset ≤ u + offsetFrom u t.offset rest := by
          by_cases more : ∃ next ∈ rest, next.at_ ≤ u
          · obtain ⟨next, member, past⟩ := more
            have apart := far next member
            have gap := gap_lt small current
            omega
          · have last : ∀ next ∈ rest, u < next.at_ := fun next member => not_le.mp fun past => more ⟨next, member, past⟩
            rw [offsetFrom_of_lt last]
            omega
        omega
    · next ahead => rw [if_neg (by omega)]; omega

end Walls

namespace Zone

/-- Offsets and the instants of their changes are whole seconds, as they are in the tz database. -/
structure WholeSeconds (tz : Zone) : Prop where
  offsets : tz.OffsetsDivide microsPerSecond
  changes : ∀ t ∈ tz.transitions, microsPerSecond ∣ t.at_

variable {tz : Zone} {u v wall : ℤ} {t : Transition} {earlier later : List Transition}

/-- Where the offset differs, a change has come in between. -/
theorem exists_change (order : v ≤ u) (differ : tz.offsetAt u ≠ tz.offsetAt v) :
    ∃ earlier t later, tz.transitions = earlier ++ t :: later ∧ v < t.at_ ∧ t.at_ ≤ u := by
  by_contra none_
  refine differ (offsetFrom_stays order fun t member between => ?_)
  obtain ⟨earlier, later, split⟩ := List.append_of_mem member
  exact none_ ⟨earlier, t, later, split, between⟩

theorem offsetAt_dvd {unit : ℤ} (divide : tz.OffsetsDivide unit) (u : ℤ) : unit ∣ tz.offsetAt u := by
  have back := tz.toUtc_localAt u
  have same : tz.offsetAt u = tz.utcOffset (tz.localAt u) := by
    simp only [toUtc, localAt] at back ⊢
    omega
  rw [same]
  exact utcOffset_dvd divide _

theorem toUtc_le_of_shown (shown : (tz.localAt u).wall = wall) : tz.toUtc ⟨wall, false⟩ ≤ u :=
  sub_wallOffsetFrom_le_of_shown tz.bounded.2 tz.spaced shown

theorem shown_or_skipped (tz : Zone) (wall : ℤ) : (tz.localAt (tz.toUtc ⟨wall, false⟩)).wall = wall ∨
    ∃ earlier t later, tz.transitions = earlier ++ t :: later ∧
      tz.toUtc ⟨wall, false⟩ = wall - offsetAfter tz.initial earlier ∧
      t.at_ + offsetAfter tz.initial earlier ≤ wall ∧ wall < t.at_ + t.offset := by
  rcases @wallOffsetFrom_resolves tz.initial wall tz.transitions tz.spaced with
    applies | ⟨earlier, t, later, split, same, skipped⟩
  · left
    have offset : tz.offsetAt (tz.toUtc ⟨wall, false⟩) = tz.utcOffset ⟨wall, false⟩ := applies
    rw [localAt, offset, toUtc]
    simp
  · right
    have offset : tz.utcOffset ⟨wall, false⟩ = offsetAfter tz.initial earlier := same
    exact ⟨earlier, t, later, split, by rw [toUtc, offset], skipped⟩

/-- No instant shows what a forward change skips. -/
theorem not_shown (split : tz.transitions = earlier ++ t :: later) (past : t.at_ + offsetAfter tz.initial earlier ≤ wall)
    (under : wall < t.at_ + t.offset) (u : ℤ) : (tz.localAt u).wall ≠ wall := by
  obtain ⟨bound, bound', _⟩ := bounds_around split
  obtain ⟨below, above⟩ := tz.localAt_bounds u
  rw [abs_lt] at bound bound'
  by_cases ahead : u < t.at_
  · by_cases recent : t.at_ - 2 * microsPerDay ≤ u
    · rw [localAt, offsetAt_before split recent ahead]
      simp only
      omega
    · omega
  · by_cases soon : u ≤ t.at_ + 2 * microsPerDay
    · rw [localAt, offsetAt_after split (not_lt.mp ahead) soon]
      simp only
      omega
    · omega

/-- The instant that a shown wall clock denotes shows it. -/
theorem localAt_toUtc (shown : (tz.localAt u).wall = wall) : (tz.localAt (tz.toUtc ⟨wall, false⟩)).wall = wall := by
  rcases tz.shown_or_skipped wall with shows_ | ⟨earlier, t, later, split, _, past, under⟩
  · exact shows_
  · exact absurd shown (not_shown split past under u)

end Zone

end Python
