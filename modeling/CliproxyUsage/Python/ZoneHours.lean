import CliproxyUsage.Python.ZoneSteps

/-! # Local hours

The local hour of an instant begins where its wall clock counts back to. Resolved on the pass of the instant,
the wall clock of that beginning denotes the same instant, unless an offset change, or the end of what a change
repeats, comes in between: then it resolves to the offset of before the change.
-/

namespace Python

/-- The change, or the end of what it repeats, comes after the beginning of an hour and up to `u`. -/
def Transition.SplitsHour (begins u old : ℤ) (t : Transition) : Prop :=
  t.at_ ≤ u ∧ (begins < t.at_ ∨ begins < t.at_ + (old - t.offset) ∧ t.at_ + (old - t.offset) ≤ u)

/-- The offset stays, or it changes from a whole local hour to a whole local hour. -/
def Transition.OnTheHour (old : ℤ) (t : Transition) : Prop :=
  old = t.offset ∨ microsPerHour ∣ t.at_ + old ∧ microsPerHour ∣ t.at_ + t.offset

/-- A change on the hour splits none. -/
theorem Transition.OnTheHour.not_splitsHour {begins u old : ℤ} {t : Transition} (regular : t.OnTheHour old)
    (differ : old ≠ t.offset) (whole : microsPerHour ∣ begins + t.offset) (near : u < begins + microsPerHour) :
    ¬t.SplitsHour begins u old := by
  rintro ⟨passed, splits⟩
  obtain ⟨⟨i, before⟩, ⟨j, after⟩⟩ := regular.resolve_left differ
  obtain ⟨k, whole⟩ := whole
  rw [microsPerHour, microsPerSecond] at *
  omega

theorem Transition.OnTheHour.dvd {old : ℤ} {t : Transition} (regular : t.OnTheHour old) :
    microsPerHour ∣ t.offset - old := by
  rcases regular with same | ⟨before, after⟩
  · simp [same]
  · have difference := Int.dvd_sub after before
    rwa [add_sub_add_left_eq_sub] at difference

namespace Zone

variable {tz : Zone} {u v : ℤ} {t : Transition} {earlier later : List Transition}

/-- Where the local hour of an instant begins, counted back on the wall clock. -/
def hourBegins (tz : Zone) (u : ℤ) : ℤ := u - (tz.localAt u).wall % microsPerHour

/-- The beginning of the local hour of an instant, on the pass of the instant. -/
def localHour (tz : Zone) (u : ℤ) : LocalTime :=
  ⟨(tz.localAt u).wall - (tz.localAt u).wall % microsPerHour, tz.foldAt u⟩

theorem hourBegins_le (u : ℤ) : tz.hourBegins u ≤ u ∧ u < tz.hourBegins u + microsPerHour := by
  have positive : (0 : ℤ) < microsPerHour := by decide
  have nonneg := Int.emod_nonneg (tz.localAt u).wall positive.ne'
  have less := Int.emod_lt_of_pos (tz.localAt u).wall positive
  rw [hourBegins]
  omega

theorem localHour_wall (u : ℤ) : (tz.localHour u).wall = tz.hourBegins u + tz.offsetAt u := by
  simp only [localHour, hourBegins, localAt]
  omega

theorem hourBegins_dvd (u : ℤ) : microsPerHour ∣ tz.hourBegins u + tz.offsetAt u := by
  rw [← localHour_wall]
  exact Int.dvd_self_sub_emod

/-- Any whole hour less than an hour before the wall clock is the beginning of its hour. -/
theorem hourBegins_eq (begins : ℤ) (whole : microsPerHour ∣ begins + tz.offsetAt u) (upTo : begins ≤ u)
    (near : u < begins + microsPerHour) : tz.hourBegins u = begins := by
  obtain ⟨k, whole⟩ := whole
  simp only [hourBegins, localAt]
  rw [microsPerHour, microsPerSecond] at *
  omega

/-- A whole hour that the wall clock has reached is not after the beginning of its hour. -/
theorem le_hourBegins {hour : ℤ} (whole : microsPerHour ∣ hour) (reached : hour ≤ u + tz.offsetAt u) :
    hour ≤ tz.hourBegins u + tz.offsetAt u := by
  have near := (@hourBegins_le tz u).2
  obtain ⟨k, whole⟩ := whole
  obtain ⟨j, whole'⟩ := @hourBegins_dvd tz u
  rw [microsPerHour, microsPerSecond] at *
  omega

section Latest

/-- Some change is the last one up to an instant, or all of them are still to come. -/
theorem exists_latest (tz : Zone) (u : ℤ) : (∀ t ∈ tz.transitions, u < t.at_) ∨
    ∃ earlier t later, tz.transitions = earlier ++ t :: later ∧ t.at_ ≤ u ∧ ∀ t' ∈ later, u < t'.at_ := by
  have spaced := tz.spaced
  generalize tz.transitions = ts at spaced
  induction ts with
  | nil => exact .inl nofun
  | cons first rest ih =>
    obtain ⟨far, spaced⟩ := List.pairwise_cons.mp spaced
    have positive : (0 : ℤ) < 2 * microsPerDay := by decide
    rcases ih spaced with ahead | ⟨earlier, t, later, rfl, passed, ahead⟩
    · by_cases passed : first.at_ ≤ u
      · exact .inr ⟨[], first, rest, rfl, passed, ahead⟩
      · refine .inl fun t member => ?_
        rcases List.mem_cons.mp member with rfl | inRest
        · exact not_le.mp passed
        · exact ahead t inRest
    · exact .inr ⟨first :: earlier, t, later, rfl, passed, ahead⟩

variable (split : tz.transitions = earlier ++ t :: later) (passed : t.at_ ≤ u) (ahead : ∀ t' ∈ later, u < t'.at_)

include split passed ahead

theorem foldAt_latest : tz.foldAt u = decide (u - t.at_ < offsetAfter tz.initial earlier - t.offset) := by
  obtain ⟨before, _⟩ := around split
  have positive : (0 : ℤ) < 2 * microsPerDay := by decide
  rw [foldAt, split, foldFrom_append, foldFrom, if_pos passed]
  · cases later with
    | nil => rfl
    | cons next more => rw [foldFrom, if_neg (not_le.mpr (ahead next (List.mem_cons_self ..)))]
  · intro t' member
    have apart := before t' member
    omega

theorem offsetAt_latest : tz.offsetAt u = t.offset := by
  obtain ⟨before, _⟩ := around split
  have positive : (0 : ℤ) < 2 * microsPerDay := by decide
  rw [offsetAt, split, offsetFrom_append, offsetFrom, if_pos passed, offsetFrom_of_lt ahead]
  intro t' member
  have apart := before t' member
  omega

/-- The beginning of the hour resolves to the offset of before the last change exactly where that splits the hour. -/
private theorem utcOffset_localHour (civil : tz.Civil) :
    tz.utcOffset (tz.localHour u) = t.offset ∧ ¬t.SplitsHour (tz.hourBegins u) u (offsetAfter tz.initial earlier) ∨
      tz.utcOffset (tz.localHour u) = offsetAfter tz.initial earlier ∧
        t.SplitsHour (tz.hourBegins u) u (offsetAfter tz.initial earlier) := by
  obtain ⟨before, _⟩ := around split
  obtain ⟨bound, bound', bounds⟩ := bounds_around split
  have hour := @hourBegins_le tz u
  have wall := @localHour_wall tz u
  have fold : (tz.localHour u).fold = _ := foldAt_latest split passed ahead
  have small : |t.offset| ≤ microsPerDay - microsPerHour := civil.offsets t (by simp [split])
  rw [offsetAt_latest split passed ahead] at wall
  rw [abs_lt] at bound bound'
  rw [abs_le] at small
  have past : ∀ t' ∈ earlier, ∀ old, |old| < microsPerDay → t'.wall old (tz.localHour u).fold ≤ (tz.localHour u).wall := by
    intro t' member old small'
    have apart := before t' member
    have small'' : |t'.offset| ≤ microsPerDay - microsPerHour := civil.offsets t' (by simp [split, member])
    rw [abs_lt] at small'
    rw [abs_le] at small''
    rw [Transition.wall]
    split <;> omega
  have last : wallOffsetFrom (tz.localHour u).fold (tz.localHour u).wall t.offset later = t.offset := by
    cases later with
    | nil => rfl
    | cons next more =>
      have apart := ahead next (List.mem_cons_self ..)
      have far := (around split).2 next (List.mem_cons_self ..)
      have small' : |next.offset| ≤ microsPerDay - microsPerHour := civil.offsets next (by simp [split])
      rw [abs_le] at small'
      have under : (tz.localHour u).wall < next.wall t.offset (tz.localHour u).fold := by
        rw [Transition.wall, fold]
        split
        · next second =>
          rw [decide_eq_true_eq] at second
          omega
        · omega
      rw [wallOffsetFrom, if_neg (not_le.mpr under)]
  have resolved : tz.utcOffset (tz.localHour u) =
      if t.wall (offsetAfter tz.initial earlier) (tz.localHour u).fold ≤ (tz.localHour u).wall then t.offset
      else offsetAfter tz.initial earlier := by
    rw [utcOffset, split, wallOffsetFrom_append tz.bounded.1 bounds past, wallOffsetFrom, last]
  rw [resolved, Transition.wall, fold, wall, Transition.SplitsHour]
  by_cases second : u - t.at_ < offsetAfter tz.initial earlier - t.offset
  · rw [decide_eq_true second, if_pos rfl]
    split <;> omega
  · rw [decide_eq_false second, if_neg Bool.false_ne_true]
    split <;> omega

end Latest

/-- A change splits the hours of a day and an hour at most. -/
theorem near_of_splitsHour (civil : tz.Civil) (split : tz.transitions = earlier ++ t :: later)
    (splits : t.SplitsHour (tz.hourBegins u) u (offsetAfter tz.initial earlier)) :
    u < t.at_ + microsPerDay + microsPerHour := by
  have positive : 0 < microsPerDay := by decide
  have near := (@hourBegins_le tz u).2
  have change := eachChange_iff.mp civil.changes earlier t later split
  rw [abs_le] at change
  rcases splits.2 with began | ⟨began, _⟩ <;> omega

/-- An hour that no change splits begins where it is counted back to. -/
theorem toUtc_localHour (civil : tz.Civil)
    (whole : EachChange (fun old t => old = t.offset ∨ ¬t.SplitsHour (tz.hourBegins u) u old) tz.initial tz.transitions) :
    tz.toUtc (tz.localHour u) = tz.hourBegins u := by
  have wall := @localHour_wall tz u
  suffices resolved : tz.utcOffset (tz.localHour u) = tz.offsetAt u by
    rw [toUtc, resolved, wall]
    omega
  rcases tz.exists_latest u with ahead | ⟨earlier, t, later, split, passed, ahead⟩
  · have offset : tz.offsetAt u = tz.initial := offsetFrom_of_lt ahead
    have hour := (@hourBegins_le tz u).1
    cases shape : tz.transitions with
    | nil =>
      rw [offset, utcOffset, shape, wallOffsetFrom]
    | cons first rest =>
      have later := ahead first (by simp [shape])
      have fold : (tz.localHour u).fold = false := by
        change foldFrom u tz.initial false tz.transitions = false
        rw [shape, foldFrom, if_neg (not_le.mpr later)]
      rw [offset, utcOffset, shape, wallOffsetFrom, fold, Transition.wall, if_neg Bool.false_ne_true, if_neg]
      omega
  · rw [offsetAt_latest split passed ahead]
    rcases utcOffset_localHour split passed ahead civil with ⟨resolved, _⟩ | ⟨resolved, splits⟩
    · exact resolved
    · rw [resolved]
      exact (eachChange_iff.mp whole earlier t later split).resolve_right (not_not_intro splits)

/-- A whole local hour is the beginning of its own hour. -/
theorem toUtc_localHour_whole (civil : tz.Civil) (whole : microsPerHour ∣ u + tz.offsetAt u) :
    tz.toUtc (tz.localHour u) = u := by
  have begins : tz.hourBegins u = u := hourBegins_eq u whole le_rfl (lt_add_of_pos_right u (by decide))
  rw [toUtc_localHour civil, begins]
  refine eachChange_iff.mpr fun _ t _ _ => .inr ?_
  rintro ⟨passed, late⟩
  rw [begins] at late
  omega

/-- In an hour that no change splits the offset stays. -/
theorem offsetAt_hourBegins
    (whole : EachChange (fun old t => old = t.offset ∨ ¬t.SplitsHour (tz.hourBegins u) u old) tz.initial tz.transitions) :
    tz.offsetAt (tz.hourBegins u) = tz.offsetAt u := by
  have same : (0 : ℤ) ∣ tz.offsetAt u - tz.offsetAt (tz.hourBegins u) := by
    refine offsetFrom_congr (hourBegins_le u).1 tz.spaced (whole.mono ?_)
    rintro old t (same | unsplit) began passed
    · simp [same]
    · exact absurd ⟨passed, .inl began⟩ unsplit
  rw [zero_dvd_iff] at same
  omega

/-- A change that splits an hour carries its beginning along. -/
theorem toUtc_localHour_split (civil : tz.Civil) (split : tz.transitions = earlier ++ t :: later)
    (splits : t.SplitsHour (tz.hourBegins u) u (offsetAfter tz.initial earlier)) :
    tz.offsetAt u = t.offset ∧
      tz.toUtc (tz.localHour u) = tz.hourBegins u + (t.offset - offsetAfter tz.initial earlier) := by
  have near := near_of_splitsHour civil split splits
  have ahead : ∀ t' ∈ later, u < t'.at_ := by
    intro t' member
    have apart := (around split).2 t' member
    rw [microsPerHour] at near
    rw [microsPerDay] at *
    rw [microsPerSecond] at *
    omega
  have wall := @localHour_wall tz u
  rw [offsetAt_latest split splits.1 ahead] at wall
  refine ⟨offsetAt_latest split splits.1 ahead, ?_⟩
  rcases utcOffset_localHour split splits.1 ahead civil with ⟨_, whole⟩ | ⟨resolved, _⟩
  · exact absurd splits whole
  · rw [toUtc, resolved, wall]
    omega

end Zone

end Python
