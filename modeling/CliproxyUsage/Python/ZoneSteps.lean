import CliproxyUsage.Python.ZoneInfo

/-! # Offset changes

What the changes of a zone say about its wall clocks. A boundary is reached exactly from the instant that
it denotes, except between a change that carries the wall clock strictly across it and the instant at which
the slower of the two clocks reaches it. Wall clocks from before a change resolve by the earlier changes.
-/

namespace Python

/-- The offset after all of some changes. -/
def offsetAfter (before : ℤ) : List Transition → ℤ
  | [] => before
  | t :: rest => offsetAfter t.offset rest

/-- Each change satisfies `P`, which sees the offset before it. -/
def EachChange (P : ℤ → Transition → Prop) (before : ℤ) : List Transition → Prop
  | [] => True
  | t :: rest => P before t ∧ EachChange P t.offset rest

/-- Offsets change by less than 24 hours. -/
def ChangesWithinDay (before : ℤ) : List Transition → Prop
  | [] => True
  | t :: rest => |t.offset - before| < microsPerDay ∧ ChangesWithinDay t.offset rest

section Changes

variable {P Q : ℤ → Transition → Prop} {before : ℤ} {ts : List Transition}

theorem eachChange_iff : EachChange P before ts ↔
    ∀ earlier t later, ts = earlier ++ t :: later → P (offsetAfter before earlier) t := by
  induction ts generalizing before with
  | nil => simp [EachChange]
  | cons first rest ih =>
    rw [EachChange, ih]
    constructor
    · rintro ⟨here, later⟩ earlier t after same
      cases earlier with
      | nil =>
        obtain ⟨rfl, rfl⟩ := List.cons.inj same
        exact here
      | cons head between =>
        obtain ⟨rfl, rest_⟩ := List.cons.inj same
        exact later between t after rest_
    · intro each
      exact ⟨each [] first rest rfl, fun earlier t after same => each (first :: earlier) t after (by rw [same]; rfl)⟩

theorem EachChange.mono (imply : ∀ old t, P old t → Q old t) (each : EachChange P before ts) :
    EachChange Q before ts := by
  rw [eachChange_iff] at each ⊢
  exact fun earlier t later split => imply _ _ (each earlier t later split)

end Changes

section Boundaries

variable {u v before m : ℤ} {ts : List Transition}

/-- If the change carries the wall clock across the boundary, it is still to come at `u`, or the slower of its two
clocks has reached the boundary. -/
def Transition.Settled (m u old : ℤ) (t : Transition) : Prop :=
  t.at_ + min old t.offset < m → m < t.at_ + max old t.offset → u < t.at_ ∨ m ≤ u + min old t.offset

private theorem after_of_spaced {t : Transition} {rest : List Transition}
    (far : ∀ later ∈ rest, t.at_ + 2 * microsPerDay < later.at_) : ∀ later ∈ rest, t.at_ < later.at_ := by
  intro later member
  have apart := far later member
  have positive : (0 : ℤ) < 2 * microsPerDay := by decide
  omega

/-- From a change on, the wall clock has reached what it had reached at the change or has settled since. -/
private theorem reached_after {t : Transition} {rest : List Transition} (bound : |before| < microsPerDay)
    (bounds : ∀ t' ∈ t :: rest, |t'.offset| < microsPerDay)
    (far : ∀ later ∈ rest, t.at_ + 2 * microsPerDay < later.at_) (under : m < t.at_ + max before t.offset)
    (reached : m ≤ u + t.offset) : m ≤ u + offsetFrom u t.offset rest := by
  have small := bounds t (List.mem_cons_self ..)
  by_cases more : ∃ next ∈ rest, next.at_ ≤ u
  · obtain ⟨next, member, past⟩ := more
    have apart := far next member
    have current := offsetFrom_bound (u := u) small fun t' later => bounds t' (List.mem_cons_of_mem _ later)
    rw [abs_lt] at bound small current
    omega
  · have last : ∀ next ∈ rest, u < next.at_ := fun next member => not_le.mp fun past => more ⟨next, member, past⟩
    rwa [offsetFrom_of_lt last]

/-- A boundary denotes an instant up to `u` exactly when the wall clock at `u` has reached it. -/
private theorem sub_wallOffsetFrom_le_iff (bound : |before| < microsPerDay)
    (bounds : ∀ t ∈ ts, |t.offset| < microsPerDay)
    (spaced : ts.Pairwise fun earlier later => earlier.at_ + 2 * microsPerDay < later.at_)
    (settled : EachChange (Transition.Settled m u) before ts) :
    m - wallOffsetFrom false m before ts ≤ u ↔ m ≤ u + offsetFrom u before ts := by
  induction ts generalizing before with
  | nil =>
    rw [wallOffsetFrom, offsetFrom]
    omega
  | cons t rest ih =>
    obtain ⟨here, settled⟩ := settled
    obtain ⟨far, spaced⟩ := List.pairwise_cons.mp spaced
    have later := after_of_spaced far
    rw [wallOffsetFrom, offsetFrom, Transition.wall, if_neg Bool.false_ne_true]
    split
    · next past =>
      have least : t.at_ ≤ m - wallOffsetFrom false m t.offset rest :=
        le_sub_wallOffsetFrom (by omega) fun t' member => (later t' member).le
      split
      · exact ih (bounds t (List.mem_cons_self ..)) (fun t' member => bounds t' (List.mem_cons_of_mem _ member)) spaced
          settled
      · next ahead => omega
    · next under =>
      split
      · next passed =>
        have reached : m ≤ u + min before t.offset := by
          by_cases crossed : t.at_ + min before t.offset < m
          · rcases here crossed (not_le.mp under) with ahead | reached
            · omega
            · exact reached
          · omega
        have shown : m ≤ u + t.offset := by omega
        have stays := reached_after bound bounds far (not_le.mp under) shown
        omega
      · omega

/-- Where the changes between two instants are by multiples of a unit, so is the difference of their offsets. -/
theorem offsetFrom_congr {unit : ℤ} (order : v ≤ u)
    (spaced : ts.Pairwise fun earlier later => earlier.at_ + 2 * microsPerDay < later.at_)
    (by_ : EachChange (fun old t => v < t.at_ → t.at_ ≤ u → unit ∣ t.offset - old) before ts) :
    unit ∣ offsetFrom u before ts - offsetFrom v before ts := by
  induction ts generalizing before with
  | nil => simp [offsetFrom]
  | cons t rest ih =>
    obtain ⟨here, by_⟩ := by_
    obtain ⟨far, spaced⟩ := List.pairwise_cons.mp spaced
    have rest' := ih spaced by_
    rw [offsetFrom, offsetFrom]
    by_cases passed : t.at_ ≤ v
    · rwa [if_pos passed, if_pos (passed.trans order)]
    · rw [if_neg passed]
      split
      · next reached =>
        have step := here (not_le.mp passed) reached
        rw [offsetFrom_of_lt fun t' member => (not_le.mp passed).trans (after_of_spaced far t' member)] at rest'
        have total := Int.dvd_add rest' step
        rwa [sub_add_sub_cancel] at total
      · simp

end Boundaries

section Prefixes

variable {u before wall : ℤ} {fold : Bool} {earlier ts : List Transition}

theorem offsetAfter_bound (bound : |before| < microsPerDay) (bounds : ∀ t ∈ ts, |t.offset| < microsPerDay) :
    |offsetAfter before ts| < microsPerDay := by
  induction ts generalizing before with
  | nil => exact bound
  | cons t rest ih =>
    exact ih (bounds t (List.mem_cons_self ..)) fun t' later => bounds t' (List.mem_cons_of_mem _ later)

theorem offsetFrom_append (passed : ∀ t ∈ earlier, t.at_ ≤ u) :
    offsetFrom u before (earlier ++ ts) = offsetFrom u (offsetAfter before earlier) ts := by
  induction earlier generalizing before with
  | nil => rfl
  | cons t rest ih =>
    rw [List.cons_append, offsetFrom, if_pos (passed t (List.mem_cons_self ..)), offsetAfter]
    exact ih fun t' later => passed t' (List.mem_cons_of_mem _ later)

theorem foldFrom_append (passed : ∀ t ∈ earlier, t.at_ ≤ u) :
    foldFrom u before fold (earlier ++ ts) =
      foldFrom u (offsetAfter before earlier) (foldFrom u before fold earlier) ts := by
  induction earlier generalizing before fold with
  | nil => rfl
  | cons t rest ih =>
    have here := passed t (List.mem_cons_self ..)
    rw [List.cons_append, foldFrom, foldFrom, if_pos here, if_pos here, offsetAfter]
    exact ih fun t' later => passed t' (List.mem_cons_of_mem _ later)

theorem wallOffsetFrom_append (bound : |before| < microsPerDay) (bounds : ∀ t ∈ earlier, |t.offset| < microsPerDay)
    (past : ∀ t ∈ earlier, ∀ old, |old| < microsPerDay → t.wall old fold ≤ wall) :
    wallOffsetFrom fold wall before (earlier ++ ts) = wallOffsetFrom fold wall (offsetAfter before earlier) ts := by
  induction earlier generalizing before with
  | nil => rfl
  | cons t rest ih =>
    rw [List.cons_append, wallOffsetFrom, if_pos (past t (List.mem_cons_self ..) before bound), offsetAfter]
    exact ih (bounds t (List.mem_cons_self ..)) (fun t' later => bounds t' (List.mem_cons_of_mem _ later))
      fun t' later => past t' (List.mem_cons_of_mem _ later)

end Prefixes

section Days

variable {before wall : ℤ} {ts : List Transition}

/-- Over 24 hours of the wall clock, first-pass offsets grow by less than 24 hours: changes are so far apart that
the second wall clock has reached at most one more of them. -/
private theorem wallOffsetFrom_day (near : ChangesWithinDay before ts)
    (spaced : ts.Pairwise fun earlier later => earlier.at_ + 2 * microsPerDay < later.at_) :
    wallOffsetFrom false (wall + microsPerDay) before ts - wallOffsetFrom false wall before ts < microsPerDay := by
  have positive : 0 < microsPerDay := by decide
  induction ts generalizing before with
  | nil =>
    rw [wallOffsetFrom, wallOffsetFrom, sub_self]
    exact positive
  | cons t rest ih =>
    obtain ⟨change, near⟩ := near
    obtain ⟨far, spaced⟩ := List.pairwise_cons.mp spaced
    rw [wallOffsetFrom, wallOffsetFrom]
    by_cases first : t.wall before false ≤ wall
    · rw [if_pos first, if_pos (by omega)]
      exact ih near spaced
    · rw [if_neg first]
      split
      · have last : wallOffsetFrom false (wall + microsPerDay) t.offset rest = t.offset := by
          cases rest with
          | nil => rfl
          | cons next others =>
            have apart := far next (List.mem_cons_self ..)
            rw [wallOffsetFrom, if_neg]
            simp only [Transition.wall, Bool.false_eq_true, ↓reduceIte] at first ⊢
            rw [abs_lt] at change
            omega
        rw [last]
        exact (abs_lt.mp change).2
      · rw [sub_self]
        exact positive

end Days

namespace Zone

variable {tz : Zone} {u wall m : ℤ} {t : Transition} {earlier later : List Transition}

/-- As in the tz database, no change is by more than a day, and no offset comes within an hour of a day. -/
structure Civil (tz : Zone) : Prop where
  changes : EachChange (fun old t => |t.offset - old| ≤ microsPerDay) tz.initial tz.transitions
  initial : |tz.initial| ≤ microsPerDay - microsPerHour
  offsets : ∀ t ∈ tz.transitions, |t.offset| ≤ microsPerDay - microsPerHour

/-- A wall clock and the same one a day later denote instants in that order. -/
theorem toUtc_lt_day (near : ChangesWithinDay tz.initial tz.transitions) (wall : ℤ) :
    tz.toUtc ⟨wall, false⟩ < tz.toUtc ⟨wall + microsPerDay, false⟩ := by
  have growth := @wallOffsetFrom_day tz.initial wall tz.transitions near tz.spaced
  simp only [toUtc, utcOffset]
  omega

/-- Where the changes across it are settled, a boundary denotes an instant up to `u` exactly when the wall clock has
reached it. -/
theorem toUtc_le_iff (settled : EachChange (Transition.Settled m u) tz.initial tz.transitions) :
    tz.toUtc ⟨m, false⟩ ≤ u ↔ m ≤ (tz.localAt u).wall :=
  sub_wallOffsetFrom_le_iff tz.bounded.1 tz.bounded.2 tz.spaced settled

section Around

variable (split : tz.transitions = earlier ++ t :: later)

include split

theorem around : (∀ t' ∈ earlier, t'.at_ + 2 * microsPerDay < t.at_) ∧
    ∀ t' ∈ later, t.at_ + 2 * microsPerDay < t'.at_ := by
  have spaced := tz.spaced
  rw [split] at spaced
  obtain ⟨_, after, between⟩ := List.pairwise_append.mp spaced
  exact ⟨fun t' member => between t' member t (List.mem_cons_self ..), (List.pairwise_cons.mp after).1⟩

omit split in
/-- Two changes are the same one, or more than two days apart. -/
theorem same_or_apart {t' : Transition} {earlier' later' : List Transition} (split : tz.transitions = earlier ++ t :: later)
    (split' : tz.transitions = earlier' ++ t' :: later') :
    earlier' = earlier ∧ t' = t ∨ t'.at_ + 2 * microsPerDay < t.at_ ∨ t.at_ + 2 * microsPerDay < t'.at_ := by
  obtain ⟨before, after⟩ := around split
  rcases List.append_eq_append_iff.mp (split.symm.trans split') with ⟨between, same, rest⟩ | ⟨between, same, rest⟩
  · cases between with
    | nil =>
      obtain ⟨rfl, _⟩ := List.cons.inj rest
      exact .inl ⟨by simpa using same, rfl⟩
    | cons head more =>
      obtain ⟨_, rest⟩ := List.cons.inj rest
      exact .inr (.inr (after t' (by simp [rest])))
  · cases between with
    | nil =>
      obtain ⟨rfl, _⟩ := List.cons.inj rest
      exact .inl ⟨by simpa using same.symm, rfl⟩
    | cons head more =>
      obtain ⟨rfl, _⟩ := List.cons.inj rest
      exact .inr (.inl (before t' (by simp [same])))

/-- The offsets before and after a change, and those of the earlier changes, stay within a day. -/
theorem bounds_around : |offsetAfter tz.initial earlier| < microsPerDay ∧ |t.offset| < microsPerDay ∧
    ∀ t' ∈ earlier, |t'.offset| < microsPerDay := by
  have bounds := tz.bounded.2
  rw [split] at bounds
  have before : ∀ t' ∈ earlier, |t'.offset| < microsPerDay := fun t' member => bounds t' (List.mem_append_left _ member)
  exact ⟨offsetAfter_bound tz.bounded.1 before, bounds t (by simp), before⟩

/-- In the two days before a change no other one comes. -/
theorem offsetAt_before (recent : t.at_ - 2 * microsPerDay ≤ u) (ahead : u < t.at_) :
    tz.offsetAt u = offsetAfter tz.initial earlier := by
  obtain ⟨before, _⟩ := around split
  rw [offsetAt, split, offsetFrom_append, offsetFrom, if_neg (not_le.mpr ahead)]
  intro t' member
  have apart := before t' member
  omega

theorem offsetAt_after (passed : t.at_ ≤ u) (soon : u ≤ t.at_ + 2 * microsPerDay) : tz.offsetAt u = t.offset := by
  obtain ⟨before, after⟩ := around split
  have positive : (0 : ℤ) < 2 * microsPerDay := by decide
  rw [offsetAt, split, offsetFrom_append, offsetFrom, if_pos passed, offsetFrom_of_lt]
  · intro t' member
    have apart := after t' member
    omega
  · intro t' member
    have apart := before t' member
    omega

/-- A wall clock that the offset before a change reaches from the change on is past the earlier changes. -/
private theorem passed_before (past : t.at_ + offsetAfter tz.initial earlier ≤ wall) :
    ∀ t' ∈ earlier, ∀ old, |old| < microsPerDay → t'.wall old false ≤ wall := by
  obtain ⟨before, _⟩ := around split
  obtain ⟨bound, _, bounds⟩ := bounds_around split
  intro t' member old small
  have apart := before t' member
  have small' := bounds t' member
  rw [abs_lt] at bound small small'
  change t'.at_ + max old t'.offset ≤ wall
  omega

/-- What a forward change skips resolves to the old offset. -/
theorem toUtc_skipped (past : t.at_ + offsetAfter tz.initial earlier ≤ wall) (under : wall < t.at_ + t.offset) :
    tz.toUtc ⟨wall, false⟩ = wall - offsetAfter tz.initial earlier := by
  obtain ⟨before, _⟩ := around split
  obtain ⟨bound, _, bounds⟩ := bounds_around split
  have ahead : ¬t.wall (offsetAfter tz.initial earlier) false ≤ wall := by
    rw [Transition.wall, if_neg Bool.false_ne_true]
    omega
  rw [toUtc, utcOffset, split, wallOffsetFrom_append tz.bounded.1 bounds (passed_before split past), wallOffsetFrom,
    if_neg ahead]

end Around

end Zone

end Python
