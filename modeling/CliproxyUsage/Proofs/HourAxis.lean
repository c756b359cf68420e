import CliproxyUsage.Proofs.AxisAgrees
import CliproxyUsage.Python.ZoneHours

/-! # The hour axis at offset changes

Hours are listed in absolute time and floored on the wall clock. A change on the hour keeps the two together. Any
other change is kept only by a window that is over before the clocks tell the difference, or that begins after.
-/

namespace CliproxyUsage

open Python

/-- How a window keeps its hours on their floors at the change from the offset `old`. -/
inductive KeepsHours (start end_ old : ℤ) (t : Transition) : Prop where
  /-- The offset stays, or it changes from a whole local hour to a whole local hour. -/
  | regular (onTheHour : t.OnTheHour old)
  | ahead (after : end_ ≤ t.at_)
  /-- The new clock has struck an hour since the change, and what the change repeats ends by that hour, on a whole hour,
  or not in the window. -/
  | settled (hour : ℤ) (whole : microsPerHour ∣ hour) (passed : t.at_ + t.offset ≤ hour)
      (struck : hour ≤ start + t.offset)
      (repeated : t.at_ + old ≤ hour ∨ microsPerHour ∣ t.at_ + old ∨ end_ + t.offset ≤ t.at_ + old)
  /-- The change comes inside one local hour, and the window ends before that hour does on either clock. -/
  | within (hour : ℤ) (whole : microsPerHour ∣ hour) (during : start < t.at_) (began : hour < t.at_ + min old t.offset)
      (ends : end_ + max old t.offset ≤ hour + microsPerHour)
  /-- The hour of the start is the one of the change or of the end of what it repeats, and both clocks show it all over
  the window. -/
  | since (hour : ℤ) (whole : microsPerHour ∣ hour) (before : t.at_ ≤ start)
      (torn : hour < t.at_ + t.offset ∨ t.at_ + old ≤ start + t.offset)
      (began : hour ≤ start + min old t.offset) (ends : end_ + max old t.offset ≤ hour + microsPerHour)

variable {tz : Zone} {start end_ x : ℤ} {starts : List LocalTime} {t : Transition} {earlier later : List Transition}

theorem floorLocal_hour (x : ℤ) : floorLocal .hour tz x = tz.localHour x := by
  simp [floorLocal, Zone.localHour, Zone.localAt, Bucket.floorWall, Bucket.phase, Bucket.period]

/-- The range of `datetime` ends with whole hours. -/
private theorem inRange_of_floor (fits : InRange (floorLocal .hour tz x).wall) : InRange (tz.localAt x).wall := by
  rw [floorLocal_hour] at fits
  obtain ⟨least, most⟩ := fits
  simp only [Zone.localHour, minWall, maxWall, InRange, microsPerHour, microsPerSecond] at least most ⊢
  omega

/-- Hours are listed from the first one in steps of an hour. -/
private theorem toUtc_hour (k : ℕ) : tz.toUtc (axisEntry .hour tz (floorLocal .hour tz start) k) =
    tz.toUtc (tz.localHour start) + k * microsPerHour := by
  rw [toUtc_axisEntry_hour, floorLocal_hour]

/-- An instant is placed at the entry that its floor is on the wall clock and in absolute time. -/
private theorem places_of_hour {k : ℕ} (wall : (tz.localHour x).wall = (axisEntry .hour tz (tz.localHour start) k).wall)
    (utc : tz.toUtc (tz.localHour x) = tz.toUtc (tz.localHour start) + k * microsPerHour)
    (reached : tz.toUtc (tz.localHour x) ≤ x) (near : x < tz.toUtc (tz.localHour x) + microsPerHour) :
    Places tz .hour start x k where
  wall := by rwa [floorLocal_hour, floorLocal_hour]
  utc := by rwa [toUtc_hour, floorLocal_hour]
  upTo i := by
    rw [toUtc_hour]
    rw [microsPerHour, microsPerSecond] at *
    omega
  fits here _ := inRange_of_floor here

/-- A change in the window is on the hour, or inside one local hour that the window ends in. -/
private theorem KeepsHours.during {old : ℤ} (keeps : KeepsHours start end_ old t) (during : start < t.at_)
    (upTo : t.at_ < end_) :
    t.OnTheHour old ∨ ∃ hour, microsPerHour ∣ hour ∧ hour < t.at_ + min old t.offset ∧
      end_ + max old t.offset ≤ hour + microsPerHour := by
  cases keeps with
  | regular onTheHour => exact .inl onTheHour
  | ahead after => omega
  | settled hour whole passed struck repeated => omega
  | within hour whole _ began ends => exact .inr ⟨hour, whole, began, ends⟩
  | since hour whole before torn began ends => omega

/-- A change before the window that splits one of its hours splits the hour of the start, which the window ends in. -/
private theorem KeepsHours.split {old : ℤ} (keeps : KeepsHours start end_ old t) (differ : old ≠ t.offset)
    (before : t.at_ ≤ start) (from_ : start ≤ x) (upTo : x < end_) (offset : tz.offsetAt x = t.offset)
    (splits : t.SplitsHour (tz.hourBegins x) x old) :
    ∃ hour, microsPerHour ∣ hour ∧ (hour < t.at_ + t.offset ∨ t.at_ + old ≤ start + t.offset) ∧
      hour ≤ start + min old t.offset ∧ end_ + max old t.offset ≤ hour + microsPerHour := by
  have began := @Zone.le_hourBegins tz x
  rw [offset] at began
  cases keeps with
  | regular onTheHour =>
    exact absurd splits
      (onTheHour.not_splitsHour differ (offset ▸ Zone.hourBegins_dvd x) (Zone.hourBegins_le x).2)
  | ahead after => omega
  | settled hour whole passed struck repeated =>
    have least := began whole (by omega)
    rcases splits.2 with early | ⟨early, late⟩
    · omega
    · rcases repeated with ended | ended | ended
      · omega
      · have least := began ended (by omega)
        omega
      · omega
  | within hour whole during began ends => omega
  | since hour whole _ torn reached ends => exact ⟨hour, whole, torn, reached, ends⟩

section Keeps

variable (civil : tz.Civil) (keeps : EachChange (KeepsHours start end_) tz.initial tz.transitions)

/-- No change splits the hour of an instant. -/
def Unsplit (tz : Zone) (x : ℤ) : Prop :=
  EachChange (fun old t => old = t.offset ∨ ¬t.SplitsHour (tz.hourBegins x) x old) tz.initial tz.transitions

include civil keeps

/-- From an hour that no change splits, later ones are split only from a change that is not on the hour. -/
private theorem unsplit_later (opened : Unsplit tz start) (from_ : start ≤ x) (upTo : x < end_)
    (regular : EachChange (fun old t => start < t.at_ → t.at_ ≤ x → t.OnTheHour old) tz.initial tz.transitions) :
    Unsplit tz x := by
  rw [Unsplit, eachChange_iff] at *
  intro earlier t later split
  by_contra torn
  obtain ⟨differ, splits⟩ := not_or.mp torn
  rw [not_not] at splits
  have near := Zone.near_of_splitsHour civil split splits
  have small : microsPerHour < microsPerDay := by decide
  obtain ⟨offset, _⟩ := Zone.toUtc_localHour_split civil split splits
  have before : t.at_ ≤ start := by
    by_contra during
    exact (regular earlier t later split (not_le.mp during) splits.1).not_splitsHour differ
      (offset ▸ Zone.hourBegins_dvd x) (Zone.hourBegins_le x).2 splits
  obtain ⟨hour, whole, tornAt, reached, ends⟩ :=
    (keeps earlier t later split).split differ before from_ upTo offset splits
  have offset' := Zone.offsetAt_after split before (by omega)
  -- The start is in the same hour, so that it would be split as well.
  have begins := Zone.hourBegins_eq (u := start) (hour - t.offset) (by rw [offset']; simpa using whole)
    (by omega) (by omega)
  have begins' := Zone.hourBegins_eq (u := x) (hour - t.offset) (by rw [offset]; simpa using whole)
    (by omega) (by omega)
  apply (opened earlier t later split).resolve_left differ
  rw [begins]
  rw [begins'] at splits
  obtain ⟨_, early⟩ := splits
  exact ⟨before, by omega⟩

omit keeps in
/-- Where hours are kept, the floor of an instant is the entry that its hour begins with. -/
private theorem places_of_unsplit (opened : Unsplit tz start) (whole : Unsplit tz x) (from_ : start ≤ x)
    (regular : EachChange (fun old t => start < t.at_ → t.at_ ≤ x → t.OnTheHour old) tz.initial tz.transitions) :
    ∃ k : ℕ, Places tz .hour start x k := by
  have first := Zone.toUtc_localHour civil opened
  have here := Zone.toUtc_localHour civil whole
  have bounds := @Zone.hourBegins_le tz x
  have bounds' := @Zone.hourBegins_le tz start
  obtain ⟨k, apart⟩ : microsPerHour ∣ tz.hourBegins x - tz.hourBegins start := by
    have offsets : microsPerHour ∣ tz.offsetAt x - tz.offsetAt start := by
      refine offsetFrom_congr from_ tz.spaced (regular.mono ?_)
      intro old t onTheHour during passed
      exact (onTheHour during passed).dvd
    have difference := Int.dvd_sub (Int.dvd_sub (@Zone.hourBegins_dvd tz x) (@Zone.hourBegins_dvd tz start)) offsets
    have sum : tz.hourBegins x + tz.offsetAt x - (tz.hourBegins start + tz.offsetAt start) -
        (tz.offsetAt x - tz.offsetAt start) = tz.hourBegins x - tz.hourBegins start := by ring
    rwa [sum] at difference
  have later : 0 ≤ k := by
    rw [microsPerHour, microsPerSecond] at *
    omega
  obtain ⟨k, rfl⟩ := Int.eq_ofNat_of_zero_le later
  rw [mul_comm] at apart
  have begins : tz.hourBegins x = tz.hourBegins start + k * microsPerHour := by omega
  refine ⟨k, places_of_hour ?_ (by rw [here, first, begins]) (by omega) (by omega)⟩
  rw [Zone.localHour_wall, ← Zone.offsetAt_hourBegins whole, begins, axisEntry, if_pos rfl, first]
  split
  · next zero => rw [zero, Zone.localHour_wall, Nat.cast_zero, zero_mul, add_zero, Zone.offsetAt_hourBegins opened]
  · rfl

omit civil in
/-- Before a change in the window there are only changes on the hour. -/
private theorem regular_before (split : tz.transitions = earlier ++ t :: later) (upTo : t.at_ < end_) :
    EachChange (fun old t' => start < t'.at_ → t'.at_ ≤ t.at_ - 1 → t'.OnTheHour old) tz.initial tz.transitions := by
  rw [eachChange_iff] at keeps ⊢
  intro earlier' t' later' split' during passed
  have apart : t'.at_ + 2 * microsPerDay < t.at_ := by
    have positive : (0 : ℤ) < 2 * microsPerDay := by decide
    rcases Zone.same_or_apart split split' with ⟨_, rfl⟩ | apart | apart <;> omega
  have small : microsPerHour < microsPerDay := by decide
  rcases (keeps earlier' t' later' split').during during (by omega) with onTheHour | ⟨hour, whole, began, ends⟩
  · exact onTheHour
  · omega

/-- From a change inside a local hour on, the floor stays at the entry that this hour begins with. -/
private theorem places_within (opened : Unsplit tz start) (split : tz.transitions = earlier ++ t :: later) {hour : ℤ}
    (whole : microsPerHour ∣ hour) (during : start < t.at_)
    (began : hour < t.at_ + min (offsetAfter tz.initial earlier) t.offset)
    (ends : end_ + max (offsetAfter tz.initial earlier) t.offset ≤ hour + microsPerHour) (passed : t.at_ ≤ x)
    (upTo : x < end_) :
    ∃ k, Places tz .hour start x k := by
  have small : microsPerHour < microsPerDay := by decide
  have regular := regular_before keeps split (passed.trans_lt upTo)
  have unsplit := unsplit_later civil keeps opened (x := t.at_ - 1) (by omega) (by omega) regular
  obtain ⟨k, place⟩ := places_of_unsplit civil opened unsplit (by omega) regular
  have old := Zone.offsetAt_before split (u := t.at_ - 1) (by omega) (by omega)
  have new := Zone.offsetAt_after split passed (by omega)
  have before := Zone.hourBegins_eq (u := t.at_ - 1) (hour - offsetAfter tz.initial earlier)
    (by rw [old]; simpa using whole) (by omega) (by omega)
  have after := Zone.hourBegins_eq (u := x) (hour - t.offset) (by rw [new]; simpa using whole)
    (by omega) (by omega)
  obtain ⟨_, floor⟩ := Zone.toUtc_localHour_split civil split (u := x) ⟨passed, .inl (by omega)⟩
  have floor' := Zone.toUtc_localHour civil unsplit
  have wall := @Zone.localHour_wall tz x
  have wall' := @Zone.localHour_wall tz (t.at_ - 1)
  have sameWall := place.wall
  have sameUtc := place.utc
  rw [floorLocal_hour, floorLocal_hour] at sameWall
  rw [toUtc_hour, floorLocal_hour] at sameUtc
  refine ⟨k, places_of_hour ?_ ?_ (by omega) (by omega)⟩
  · rw [← sameWall]
    omega
  · rw [← sameUtc]
    omega

/-- A window that begins in a split hour is all in that hour. -/
private theorem places_since (split : tz.transitions = earlier ++ t :: later)
    (differ : offsetAfter tz.initial earlier ≠ t.offset)
    (splits : t.SplitsHour (tz.hourBegins start) start (offsetAfter tz.initial earlier)) (from_ : start ≤ x)
    (upTo : x < end_) :
    Places tz .hour start x 0 ∧ end_ ≤ tz.toUtc (tz.localHour start) + microsPerHour := by
  have small : 2 * microsPerHour < microsPerDay := by decide
  have near := Zone.near_of_splitsHour civil split splits
  obtain ⟨offset, floor⟩ := Zone.toUtc_localHour_split civil split splits
  have passed := splits.1
  obtain ⟨hour, whole, torn, reached, ends⟩ :=
    (eachChange_iff.mp keeps earlier t later split).split differ passed le_rfl (from_.trans_lt upTo) offset splits
  have begins := Zone.hourBegins_eq (u := start) (hour - t.offset) (by rw [offset]; simpa using whole)
    (by omega) (by omega)
  have offset' := Zone.offsetAt_after split (u := x) (by omega) (by omega)
  have begins' := Zone.hourBegins_eq (u := x) (hour - t.offset) (by rw [offset']; simpa using whole)
    (by omega) (by omega)
  obtain ⟨_, floor'⟩ := Zone.toUtc_localHour_split civil split (u := x) (by
    obtain ⟨_, early⟩ := splits
    rw [begins] at early
    rw [begins']
    exact ⟨by omega, by omega⟩)
  have wall := @Zone.localHour_wall tz start
  have wall' := @Zone.localHour_wall tz x
  refine ⟨places_of_hour ?_ ?_ (by omega) (by omega), by omega⟩
  · rw [axisEntry, if_pos rfl]
    omega
  · rw [Nat.cast_zero]
    omega

/-- A window that keeps its hours at every change agrees with its floors. -/
theorem hours_agree (nonempty : start < end_) (listed : bucketStarts start end_ .hour tz none = .ok starts) :
    AxisAgrees tz .hour start end_ starts := by
  by_cases opened : Unsplit tz start
  · have regular : EachChange (fun old t => start < t.at_ → t.at_ ≤ start → t.OnTheHour old) tz.initial tz.transitions :=
      eachChange_iff.mpr fun _ _ _ _ during passed => absurd passed (not_le.mpr during)
    obtain ⟨k, place⟩ := places_of_unsplit civil opened opened le_rfl regular
    have utc := place.utc
    rw [toUtc_hour, floorLocal_hour] at utc
    have zero : k = 0 := by
      rw [microsPerHour, microsPerSecond] at *
      omega
    rw [zero] at place
    have placed (x : ℤ) (from_ : start ≤ x) (upTo : x < end_) : ∃ k, Places tz .hour start x k := by
      by_cases regular : EachChange (fun old t => start < t.at_ → t.at_ ≤ x → t.OnTheHour old) tz.initial tz.transitions
      · exact places_of_unsplit civil opened (unsplit_later civil keeps opened from_ upTo regular) from_ regular
      · rw [eachChange_iff] at regular
        push Not at regular
        obtain ⟨earlier, t, later, split, during, passed, odd⟩ := regular
        rcases (eachChange_iff.mp keeps earlier t later split).during during (passed.trans_lt upTo) with
          onTheHour | ⟨hour, whole, began, ends⟩
        · exact absurd onTheHour odd
        · exact places_within civil keeps opened split whole during began ends passed upTo
    apply agrees_of_places listed nonempty place placed
    intro k before
    by_cases from_ : start ≤ tz.toUtc (axisEntry .hour tz (floorLocal .hour tz start) k)
    · obtain ⟨j, own⟩ := placed _ from_ before
      have least := (own.upTo k).mp le_rfl
      have most := (own.upTo j).mpr le_rfl
      rw [toUtc_hour, toUtc_hour] at most
      have same : k = j := by
        rw [microsPerHour, microsPerSecond] at *
        omega
      rw [same, ← own.wall]
      exact Bucket.floorWall_starts _
    · have last := (place.upTo k).mp (not_le.mp from_).le
      rw [Nat.le_zero.mp last, axisEntry, if_pos rfl]
      exact Bucket.floorWall_starts _
  · rw [Unsplit, eachChange_iff] at opened
    push Not at opened
    obtain ⟨earlier, t, later, split, differ, splits⟩ := opened
    have ends := (places_since civil keeps split differ splits le_rfl nonempty).2
    apply agrees_of_places listed nonempty (places_since civil keeps split differ splits le_rfl nonempty).1
    · exact fun x from_ upTo => ⟨0, (places_since civil keeps split differ splits from_ upTo).1⟩
    · intro k before
      rw [toUtc_hour] at before
      have zero : k = 0 := by
        rw [microsPerHour, microsPerSecond] at *
        omega
      rw [zero, axisEntry, if_pos rfl]
      exact Bucket.floorWall_starts _

end Keeps

section Kept

/-- Around a change only that change can split an hour. -/
private theorem unsplit_near (civil : tz.Civil) (split : tz.transitions = earlier ++ t :: later) (recent : t.at_ - 1 ≤ x)
    (soon : x ≤ t.at_ + 2 * microsPerDay)
    (own : ¬t.SplitsHour (tz.hourBegins x) x (offsetAfter tz.initial earlier)) : Unsplit tz x := by
  refine eachChange_iff.mpr fun earlier' t' later' split' => .inr fun splits => ?_
  have near := Zone.near_of_splitsHour civil split' splits
  have small : microsPerHour < microsPerDay := by decide
  have passed := splits.1
  rcases Zone.same_or_apart split split' with ⟨rfl, rfl⟩ | apart | apart
  · exact own splits
  · omega
  · omega

/-- The hours before the end are listed. -/
private theorem hour_mem (listed : bucketStarts start end_ .hour tz none = .ok starts) {k : ℕ}
    (before : tz.toUtc (tz.localHour start) + k * microsPerHour < end_) :
    axisEntry .hour tz (floorLocal .hour tz start) k ∈ starts := by
  apply axisEntry_mem listed
  intro i least
  rw [toUtc_hour]
  rw [microsPerHour, microsPerSecond] at *
  omega

variable (agrees : AxisAgrees tz .hour start end_ starts) (listed : bucketStarts start end_ .hour tz none = .ok starts)

include agrees listed

/-- The listed hours that an instant of the window is between. -/
private theorem floor_between (from_ : start ≤ x) (upTo : x < end_) :
    ∃ k : ℕ, tz.toUtc (tz.localHour x) = tz.toUtc (tz.localHour start) + k * microsPerHour ∧
      tz.toUtc (tz.localHour x) ≤ x ∧ x < tz.toUtc (tz.localHour x) + microsPerHour := by
  have greatest := agrees.floor from_ upTo
  rw [floorLocal_hour] at greatest
  obtain ⟨k, same⟩ : ∃ k : ℕ, tz.toUtc (tz.localHour x) = tz.toUtc (tz.localHour start) + k * microsPerHour := by
    obtain ⟨_, n, rfl, _⟩ := bucketStarts_entries listed
    have member := greatest.1.1
    rw [List.map_map] at member
    obtain ⟨k, _, same⟩ := List.mem_map.mp member
    rw [Function.comp_apply, toUtc_hour] at same
    exact ⟨k, same.symm⟩
  refine ⟨k, same, greatest.1.2, ?_⟩
  by_contra next
  have later : tz.toUtc (tz.localHour start) + (k + 1 : ℕ) * microsPerHour ≤ x := by
    push_cast
    rw [add_mul, one_mul]
    omega
  have last := greatest.2 ⟨List.mem_map_of_mem (hour_mem listed (later.trans_lt upTo)), by rwa [toUtc_hour]⟩
  rw [toUtc_hour] at last
  rw [microsPerHour, microsPerSecond] at *
  omega

/-- The hours after the first one are whole on the wall clock. -/
private theorem entry_whole {k : ℕ}
    (before : tz.toUtc (tz.localHour start) + (k + 1 : ℕ) * microsPerHour < end_) :
    microsPerHour ∣ tz.toUtc (tz.localHour start) + (k + 1 : ℕ) * microsPerHour +
      tz.offsetAt (tz.toUtc (tz.localHour start) + (k + 1 : ℕ) * microsPerHour) := by
  have whole := agrees.boundaries _ (hour_mem listed before)
  rwa [axisEntry, if_neg (Nat.succ_ne_zero k), if_pos rfl, floorLocal_hour] at whole

variable (civil : tz.Civil) (split : tz.transitions = earlier ++ t :: later)

include civil split

/-- Both clocks of a change show one hour that is listed by the old clock: the window ends before that hour does on
either clock. -/
private theorem ends_of_agrees {hour : ℤ} {k : ℕ} (differ : offsetAfter tz.initial earlier ≠ t.offset)
    (whole : microsPerHour ∣ hour)
    (entry : hour - offsetAfter tz.initial earlier = tz.toUtc (tz.localHour start) + k * microsPerHour)
    (from_ : start ≤ x) (passed : t.at_ ≤ x + 1) (recent : x < t.at_ + microsPerDay + microsPerHour)
    (began : hour ≤ x + min (offsetAfter tz.initial earlier) t.offset)
    (near : x + max (offsetAfter tz.initial earlier) t.offset < hour + microsPerHour) :
    end_ + max (offsetAfter tz.initial earlier) t.offset ≤ hour + microsPerHour := by
  have small : 3 * microsPerHour < microsPerDay := by decide
  have new {u : ℤ} := @Zone.offsetAt_after tz u t earlier later split
  have apart : ¬microsPerHour ∣ t.offset - offsetAfter tz.initial earlier := by
    rintro ⟨i, apart⟩
    apply differ
    rw [microsPerHour, microsPerSecond] at *
    omega
  by_contra ends
  have old : end_ + offsetAfter tz.initial earlier ≤ hour + microsPerHour := by
    by_contra long
    have next : tz.toUtc (tz.localHour start) + (k + 1 : ℕ) * microsPerHour =
        hour - offsetAfter tz.initial earlier + microsPerHour := by
      push_cast
      rw [add_mul, one_mul, entry, add_assoc]
    have boundary := entry_whole agrees listed (k := k) (by omega)
    rw [next, new (by omega) (by omega)] at boundary
    apply apart
    have difference := Int.dvd_sub boundary (Int.dvd_add whole (Int.dvd_refl _))
    have sum : hour - offsetAfter tz.initial earlier + microsPerHour + t.offset - (hour + microsPerHour) =
        t.offset - offsetAfter tz.initial earlier := by ring
    rwa [sum] at difference
  -- The end of the hour on the new clock is in the window, but it is not listed.
  have floor := Zone.toUtc_localHour_whole civil (u := hour - t.offset + microsPerHour) (by
    rw [new (by omega) (by omega), add_right_comm, sub_add_cancel]
    exact Int.dvd_add whole (Int.dvd_refl _))
  obtain ⟨i, last, _⟩ := floor_between agrees listed (x := hour - t.offset + microsPerHour) (by omega) (by omega)
  rw [floor] at last
  apply apart
  refine ⟨k + 1 - i, ?_⟩
  rw [mul_comm, sub_mul, add_mul, one_mul]
  omega

/-- A change in the window comes inside a local hour, and the window ends before that hour. -/
private theorem within_of_agrees (odd : ¬t.OnTheHour (offsetAfter tz.initial earlier)) (during : start < t.at_)
    (upTo : t.at_ < end_) :
    KeepsHours start end_ (offsetAfter tz.initial earlier) t := by
  have positive : 0 < microsPerHour := by decide
  have small : 2 * microsPerHour < microsPerDay := by decide
  have differ : offsetAfter tz.initial earlier ≠ t.offset := fun same => odd (.inl same)
  have old := Zone.offsetAt_before split (u := t.at_ - 1) (by omega) (by omega)
  have new := Zone.offsetAt_after split le_rfl (by omega)
  have whole := @Zone.hourBegins_dvd tz (t.at_ - 1)
  have whole' := @Zone.hourBegins_dvd tz t.at_
  rw [old] at whole
  rw [new] at whole'
  have bounds := @Zone.hourBegins_le tz (t.at_ - 1)
  have bounds' := @Zone.hourBegins_le tz t.at_
  have floor := Zone.toUtc_localHour civil (unsplit_near civil split le_rfl (by omega)
    (x := t.at_ - 1) fun splits => absurd splits.1 (by omega))
  obtain ⟨k, before, _, _⟩ := floor_between agrees listed (x := t.at_ - 1) (by omega) (by omega)
  obtain ⟨j, after, notAfter, near⟩ := floor_between agrees listed during.le upTo
  rw [floor] at before
  have began : tz.hourBegins t.at_ < t.at_ := by
    by_contra exact_
    have same : tz.hourBegins t.at_ = t.at_ := by omega
    rw [same] at whole'
    refine odd (.inr ⟨?_, whole'⟩)
    rw [Zone.toUtc_localHour_whole civil (by rwa [new])] at after
    have step : tz.hourBegins (t.at_ - 1) + microsPerHour = t.at_ := by
      rw [microsPerHour, microsPerSecond] at *
      omega
    rw [← step, add_right_comm]
    exact Int.dvd_add whole (Int.dvd_refl _)
  obtain ⟨_, floor'⟩ := Zone.toUtc_localHour_split civil split (u := t.at_) ⟨le_rfl, .inl began⟩
  rw [floor'] at after notAfter near
  -- The floors just before and at the change are one entry, as the change itself is not on the hour.
  have same : tz.hourBegins t.at_ + t.offset = tz.hourBegins (t.at_ - 1) + offsetAfter tz.initial earlier := by
    by_contra apart
    have listed_ : tz.toUtc (tz.localHour start) + (k + 1 : ℕ) * microsPerHour = t.at_ := by
      rw [microsPerHour, microsPerSecond] at *
      omega
    have boundary := entry_whole agrees listed (k := k) (by omega)
    rw [listed_, new] at boundary
    obtain ⟨i, boundary⟩ := boundary
    obtain ⟨i', whole'⟩ := whole'
    rw [microsPerHour, microsPerSecond] at *
    omega
  exact .within (tz.hourBegins t.at_ + t.offset) whole' during (by omega)
    (ends_of_agrees agrees listed civil split differ whole' (k := k) (x := t.at_ - 1) (by omega) (by omega) (by omega)
      (by omega) (by omega) (by omega))

/-- A window that begins in a split hour ends before that hour does on either clock. -/
private theorem since_of_agrees (differ : offsetAfter tz.initial earlier ≠ t.offset) (nonempty : start < end_)
    (splits : t.SplitsHour (tz.hourBegins start) start (offsetAfter tz.initial earlier)) :
    KeepsHours start end_ (offsetAfter tz.initial earlier) t := by
  have near := Zone.near_of_splitsHour civil split splits
  obtain ⟨offset, floor⟩ := Zone.toUtc_localHour_split civil split splits
  have whole := @Zone.hourBegins_dvd tz start
  have bounds := @Zone.hourBegins_le tz start
  rw [offset] at whole
  obtain ⟨_, _, notAfter, before⟩ := floor_between agrees listed le_rfl nonempty
  rw [floor] at notAfter before
  have passed := splits.1
  refine .since (tz.hourBegins start + t.offset) whole passed ?_ (by omega)
    (ends_of_agrees agrees listed civil split differ whole (k := 0) (x := start) ?_ le_rfl (by omega) near (by omega)
      (by omega))
  · rcases splits.2 with began | ⟨_, ended⟩
    · exact .inl (by omega)
    · exact .inr (by omega)
  · rw [floor, Nat.cast_zero]
    omega

/-- A change before the hour of the start is settled there. -/
private theorem settled_of_agrees (passed : t.at_ ≤ start)
    (unsplit : ¬t.SplitsHour (tz.hourBegins start) start (offsetAfter tz.initial earlier)) :
    KeepsHours start end_ (offsetAfter tz.initial earlier) t := by
  have positive : 0 < microsPerHour := by decide
  have small : 3 * microsPerHour < microsPerDay := by decide
  have change := eachChange_iff.mp civil.changes earlier t later split
  rw [abs_le] at change
  rcases le_or_gt (t.at_ + microsPerDay + microsPerHour) start with far | near
  · have less := Int.emod_lt_of_pos (start + t.offset) positive
    have nonneg := Int.emod_nonneg (start + t.offset) positive.ne'
    exact .settled (start + t.offset - (start + t.offset) % microsPerHour) Int.dvd_self_sub_emod (by omega) (by omega)
      (.inl (by omega))
  · have bounds := @Zone.hourBegins_le tz start
    have whole := @Zone.hourBegins_dvd tz start
    have floor := Zone.toUtc_localHour civil (unsplit_near civil split (by omega) (by omega) unsplit)
    rw [Zone.offsetAt_after split passed (by omega)] at whole
    rw [Transition.SplitsHour] at unsplit
    refine .settled (tz.hourBegins start + t.offset) whole (by omega) (by omega) ?_
    by_contra repeated
    rw [not_or, not_or] at repeated
    obtain ⟨during, part, ends⟩ := repeated
    -- What the change repeats ends inside an hour of the window, and that hour floors to its first pass.
    have new := Zone.offsetAt_after split (u := t.at_ + (offsetAfter tz.initial earlier - t.offset)) (by omega) (by omega)
    have bounds' := @Zone.hourBegins_le tz (t.at_ + (offsetAfter tz.initial earlier - t.offset))
    have whole' := @Zone.hourBegins_dvd tz (t.at_ + (offsetAfter tz.initial earlier - t.offset))
    have inside : tz.hourBegins (t.at_ + (offsetAfter tz.initial earlier - t.offset)) <
        t.at_ + (offsetAfter tz.initial earlier - t.offset) := by
      refine bounds'.1.lt_of_ne fun exact_ => part ?_
      rw [exact_, new] at whole'
      have sum : t.at_ + (offsetAfter tz.initial earlier - t.offset) + t.offset =
          t.at_ + offsetAfter tz.initial earlier := by ring
      rwa [sum] at whole'
    obtain ⟨_, floor'⟩ := Zone.toUtc_localHour_split civil split
      (u := t.at_ + (offsetAfter tz.initial earlier - t.offset)) ⟨by omega, .inr ⟨inside, le_rfl⟩⟩
    obtain ⟨k, entry, _⟩ := floor_between agrees listed (x := t.at_ + (offsetAfter tz.initial earlier - t.offset))
      (by omega) (by omega)
    rw [floor, floor'] at entry
    rw [microsPerHour, microsPerSecond] at *
    omega

end Kept

/-- The hours of a window agree with its floors exactly where the window keeps them at every change. -/
theorem hours_agree_iff (civil : tz.Civil) (nonempty : start < end_)
    (listed : bucketStarts start end_ .hour tz none = .ok starts) :
    AxisAgrees tz .hour start end_ starts ↔ EachChange (KeepsHours start end_) tz.initial tz.transitions := by
  constructor
  · intro agrees
    refine eachChange_iff.mpr fun earlier t later split => ?_
    by_cases onTheHour : t.OnTheHour (offsetAfter tz.initial earlier)
    · exact .regular onTheHour
    rcases le_or_gt end_ t.at_ with after | upTo
    · exact .ahead after
    rcases lt_or_ge start t.at_ with during | passed
    · exact within_of_agrees agrees listed civil split onTheHour during upTo
    by_cases splits : t.SplitsHour (tz.hourBegins start) start (offsetAfter tz.initial earlier)
    · exact since_of_agrees agrees listed civil split (fun same => onTheHour (.inl same)) nonempty splits
    · exact settled_of_agrees agrees listed civil split passed splits
  · exact fun keeps => hours_agree civil keeps nonempty listed

end CliproxyUsage
