import CliproxyUsage.Python.Exceptions
import CliproxyUsage.Python.IsoFormat
import Mathlib.Data.List.Basic
import Mathlib.Tactic.Linarith

/-! # Time zones and local times

A zone is a right-continuous step function from instants to offsets, as the tz database describes
it. `fromUtc` and `utcOffset` resolve local times as `zoneinfo` does under PEP 495: `fold` tells
the second pass of a repeated wall clock from the first, and a wall clock that a forward jump skips
takes the offset of before the jump when `fold` is 0. Instants, offsets and wall clocks are counted
in microseconds; the transitions of a real zone fall on whole seconds.
-/

namespace Python

def microsPerHour : ℤ := 3600 * microsPerSecond

def microsPerDay : ℤ := 86400 * microsPerSecond

/-- From the instant `at`, local clocks are `offset` ahead of UTC. -/
structure Transition where
  at_ : ℤ
  offset : ℤ
deriving DecidableEq, Repr

/-- Offsets stay within a day of UTC, and transitions are more than two days apart. -/
structure Zone where
  initial : ℤ
  transitions : List Transition
  bounded : |initial| < microsPerDay ∧ ∀ t ∈ transitions, |t.offset| < microsPerDay
  spaced : transitions.Pairwise fun earlier later => earlier.at_ + 2 * microsPerDay < later.at_

/-- A wall clock in a known zone. -/
structure LocalTime where
  wall : ℤ
  fold : Bool
deriving DecidableEq, Repr

/-- The offset at an instant, when `before` applies until the first transition. -/
def offsetFrom (u before : ℤ) : List Transition → ℤ
  | [] => before
  | t :: rest => if t.at_ ≤ u then offsetFrom u t.offset rest else before

/-- Whether the wall clock at an instant repeats one from before the last transition. -/
def foldFrom (u before : ℤ) (fold : Bool) : List Transition → Bool
  | [] => fold
  | t :: rest =>
    if t.at_ ≤ u then foldFrom u t.offset (decide (u - t.at_ < before - t.offset)) rest else fold

/-- The wall clock from which a transition counts: that of the larger offset for `fold` 0 and that
of the smaller one for `fold` 1. -/
def Transition.wall (t : Transition) (before : ℤ) (fold : Bool) : ℤ :=
  t.at_ + if fold then min before t.offset else max before t.offset

/-- The offset of a wall clock, when `before` applies until the first transition. -/
def wallOffsetFrom (fold : Bool) (wall before : ℤ) : List Transition → ℤ
  | [] => before
  | t :: rest =>
    if t.wall before fold ≤ wall then wallOffsetFrom fold wall t.offset rest else before

namespace Zone

def utc : Zone := ⟨0, [], by decide, by decide⟩

variable (tz : Zone)

def offsetAt (u : ℤ) : ℤ := offsetFrom u tz.initial tz.transitions

def foldAt (u : ℤ) : Bool := foldFrom u tz.initial false tz.transitions

/-- `tz.fromutc`, the local time of an instant, before the range check. -/
def localAt (u : ℤ) : LocalTime := ⟨u + tz.offsetAt u, tz.foldAt u⟩

/-- `dt.astimezone(tz)` on an instant. -/
def fromUtc (u : ℤ) : Except PyError LocalTime :=
  if InRange (tz.localAt u).wall then .ok (tz.localAt u) else .error .overflowError

/-- `tz.utcoffset(local)`. -/
def utcOffset (l : LocalTime) : ℤ := wallOffsetFrom l.fold l.wall tz.initial tz.transitions

/-- The instant of a local time. -/
def toUtc (l : LocalTime) : ℤ := l.wall - tz.utcOffset l

end Zone

/-- No forward jump carries the wall clock from strictly before a whole hour to strictly after it. -/
def SkipsNoHour (before : ℤ) : List Transition → Prop
  | [] => True
  | t :: rest =>
    (∀ k : ℤ, ¬(t.at_ + before < k * microsPerHour ∧ k * microsPerHour < t.at_ + t.offset)) ∧
      SkipsNoHour t.offset rest

def Zone.NoHourSkipped (tz : Zone) : Prop := SkipsNoHour tz.initial tz.transitions

/-- Every offset of the zone is a multiple of `unit`. -/
def Zone.OffsetsDivide (tz : Zone) (unit : ℤ) : Prop :=
  unit ∣ tz.initial ∧ ∀ t ∈ tz.transitions, unit ∣ t.offset

section Steps

variable {u before : ℤ} {ts : List Transition}

theorem gap_lt {a b : ℤ} (left : |a| < microsPerDay) (right : |b| < microsPerDay) :
    a - b < 2 * microsPerDay := by
  rw [abs_lt] at left right
  linarith [left.2, right.1]

theorem offsetFrom_bound (bound : |before| < microsPerDay)
    (bounds : ∀ t ∈ ts, |t.offset| < microsPerDay) : |offsetFrom u before ts| < microsPerDay := by
  induction ts generalizing before with
  | nil => exact bound
  | cons t rest ih =>
    rw [offsetFrom]
    split
    · exact ih (bounds t (List.mem_cons_self ..)) fun t' later => bounds t' (List.mem_cons_of_mem _ later)
    · exact bound

theorem wallOffsetFrom_bound {fold : Bool} {wall : ℤ} (bound : |before| < microsPerDay)
    (bounds : ∀ t ∈ ts, |t.offset| < microsPerDay) : |wallOffsetFrom fold wall before ts| < microsPerDay := by
  induction ts generalizing before with
  | nil => exact bound
  | cons t rest ih =>
    rw [wallOffsetFrom]
    split
    · exact ih (bounds t (List.mem_cons_self ..)) fun t' later => bounds t' (List.mem_cons_of_mem _ later)
    · exact bound

private theorem wall_le (t : Transition) (fold : Bool) :
    t.wall before fold ≤ t.at_ + max before t.offset := by
  rw [Transition.wall]
  split
  · linarith [min_le_left before t.offset, le_max_left before t.offset]
  · exact le_rfl

/-- Before a transition, and outside the repeated hour it ends, local times have not reached it. -/
private theorem lt_wall {t : Transition} {fold : Bool} (ahead : u < t.at_)
    (apart : fold = true → u + before < t.at_ + t.offset) : u + before < t.wall before fold := by
  rw [Transition.wall]
  cases fold with
  | false =>
    simp only [Bool.false_eq_true, ↓reduceIte]
    linarith [le_max_left before t.offset]
  | true =>
    have overlap := apart rfl
    simp only [↓reduceIte]
    rcases le_total before t.offset with order | order
    · rw [min_eq_left order]; linarith
    · rw [min_eq_right order]; exact overlap

theorem offsetFrom_of_lt (later : ∀ t ∈ ts, u < t.at_) : offsetFrom u before ts = before := by
  cases ts with
  | nil => rfl
  | cons t rest => rw [offsetFrom, if_neg (not_le.mpr (later t (List.mem_cons_self ..)))]

/-- A repeated wall clock is well before those of the next transition. -/
theorem repeated_next {t : Transition} {rest : List Transition} (bound : |before| < microsPerDay)
    (bounds : ∀ t' ∈ rest, |t'.offset| < microsPerDay)
    (far : ∀ later ∈ rest, t.at_ + 2 * microsPerDay < later.at_)
    (repeated : decide (u - t.at_ < before - t.offset) = true) :
    ∀ t' ∈ rest, u + t.offset < t'.at_ + t'.offset := by
  intro t' later
  have overlap := of_decide_eq_true repeated
  have apart := far t' later
  have gap := gap_lt bound (bounds t' later)
  linarith

/-- The wall clock of a passed transition is not after the local time of the instant. -/
private theorem wall_of_passed {t : Transition} {rest : List Transition} (passed : t.at_ ≤ u)
    (bound : |before| < microsPerDay) (bounds : ∀ t' ∈ t :: rest, |t'.offset| < microsPerDay)
    (far : ∀ later ∈ rest, t.at_ + 2 * microsPerDay < later.at_) :
    t.wall before (foldFrom u t.offset (decide (u - t.at_ < before - t.offset)) rest) ≤
      u + offsetFrom u t.offset rest := by
  have here := bounds t (List.mem_cons_self ..)
  have current := offsetFrom_bound (u := u) here fun t' later => bounds t' (List.mem_cons_of_mem _ later)
  rw [Transition.wall]
  by_cases more : ∃ next ∈ rest, next.at_ ≤ u
  · -- Another transition has passed, two days later, and no offset makes up for that.
    obtain ⟨next, later, past⟩ := more
    have apart := far next later
    have old := gap_lt bound current
    have new := gap_lt here current
    split <;> rcases le_total before t.offset with order | order <;> simp only [order, min_eq_left,
      min_eq_right, max_eq_left, max_eq_right] <;> linarith
  · have last : ∀ next ∈ rest, u < next.at_ := fun next later => not_le.mp fun past => more ⟨next, later, past⟩
    rw [offsetFrom_of_lt last]
    have fold : foldFrom u t.offset (decide (u - t.at_ < before - t.offset)) rest =
        decide (u - t.at_ < before - t.offset) := by
      cases rest with
      | nil => rfl
      | cons next others => rw [foldFrom, if_neg (not_le.mpr (last next (List.mem_cons_self ..)))]
    rw [fold]
    split
    · linarith [min_le_right before t.offset]
    · next first =>
      rw [decide_eq_true_eq, not_lt] at first
      rcases le_total before t.offset with order | order
      · rw [max_eq_right order]; linarith
      · rw [max_eq_left order]; linarith

/-- Resolving the wall clock of an instant with its own `fold` gives the offset at that instant. -/
private theorem wallOffsetFrom_local {fold : Bool} (bound : |before| < microsPerDay)
    (bounds : ∀ t ∈ ts, |t.offset| < microsPerDay)
    (spaced : ts.Pairwise fun earlier later => earlier.at_ + 2 * microsPerDay < later.at_)
    (repeated : fold = true → ∀ t ∈ ts, u + before < t.at_ + t.offset) :
    wallOffsetFrom (foldFrom u before fold ts) (u + offsetFrom u before ts) before ts =
      offsetFrom u before ts := by
  induction ts generalizing before fold with
  | nil => rfl
  | cons t rest ih =>
    obtain ⟨far, spaced⟩ := List.pairwise_cons.mp spaced
    have later := fun t' member => bounds t' (List.mem_cons_of_mem t member)
    rw [offsetFrom, foldFrom]
    split
    · next passed =>
      rw [wallOffsetFrom, if_pos (wall_of_passed passed bound bounds far)]
      exact ih (bounds t (List.mem_cons_self ..)) later spaced (repeated_next bound later far)
    · next ahead =>
      rw [wallOffsetFrom, if_neg]
      exact not_le.mpr (lt_wall (not_le.mp ahead) fun repeat_ => repeated repeat_ t (List.mem_cons_self ..))

/-- A whole hour up to the local time of an instant, resolved on the same pass or on the first
one, is not after that instant, unless a forward jump skips it. -/
private theorem sub_wallOffsetFrom_le {fold first : Bool} {wall : ℤ} (bound : |before| < microsPerDay)
    (bounds : ∀ t ∈ ts, |t.offset| < microsPerDay)
    (spaced : ts.Pairwise fun earlier later => earlier.at_ + 2 * microsPerDay < later.at_)
    (repeated : fold = true → ∀ t ∈ ts, u + before < t.at_ + t.offset)
    (noSkip : SkipsNoHour before ts) (hour : microsPerHour ∣ wall)
    (pass : first = false ∨ first = foldFrom u before fold ts)
    (upTo : wall ≤ u + offsetFrom u before ts) : wall - wallOffsetFrom first wall before ts ≤ u := by
  induction ts generalizing before fold with
  | nil =>
    simp only [offsetFrom] at upTo
    simp only [wallOffsetFrom]
    linarith
  | cons t rest ih =>
    obtain ⟨far, spaced⟩ := List.pairwise_cons.mp spaced
    obtain ⟨kept, noSkip⟩ := noSkip
    have later := fun t' member => bounds t' (List.mem_cons_of_mem t member)
    rw [offsetFrom] at upTo
    rw [foldFrom] at pass
    rw [wallOffsetFrom]
    by_cases passed : t.at_ ≤ u
    · rw [if_pos passed] at upTo pass
      split
      · exact ih (bounds t (List.mem_cons_self ..)) later spaced (repeated_next bound later far) noSkip pass upTo
      · next under =>
        rw [not_le] at under
        rcases le_total before t.offset with order | order
        · -- A forward jump: the hour is not inside it.
          have most := under.trans_le (wall_le t first)
          rw [max_eq_right order] at most
          obtain ⟨k, rfl⟩ := hour
          have outside := kept k
          rw [mul_comm] at most upTo ⊢
          by_contra above
          exact outside ⟨by linarith, most⟩
        · have most := under.trans_le (wall_le t first)
          rw [max_eq_left order] at most
          linarith
    · rw [if_neg passed] at upTo pass
      have ahead : first = true → u + before < t.at_ + t.offset := fun second => by
        rcases pass with rfl | rfl
        · contradiction
        · exact repeated second t (List.mem_cons_self ..)
      rw [if_neg]
      · linarith
      · exact not_le.mpr (upTo.trans_lt (lt_wall (not_le.mp passed) ahead))

/-- Resolved on the first pass, a wall clock after every earlier transition stays after them. -/
theorem le_sub_wallOffsetFrom {wall least : ℤ} (start : least ≤ wall - before)
    (ahead : ∀ t ∈ ts, least ≤ t.at_) : least ≤ wall - wallOffsetFrom false wall before ts := by
  induction ts generalizing before with
  | nil => exact start
  | cons t rest ih =>
    rw [wallOffsetFrom]
    split
    · next past =>
      rw [Transition.wall, if_neg Bool.false_ne_true] at past
      refine ih ?_ fun t' later => ahead t' (List.mem_cons_of_mem _ later)
      have earliest := ahead t (List.mem_cons_self ..)
      linarith [le_max_right before t.offset]
    · exact start

/-- A whole hour that no jump skips is not after the local time of the instant it denotes. -/
private theorem le_add_offsetFrom {wall : ℤ}
    (spaced : ts.Pairwise fun earlier later => earlier.at_ + 2 * microsPerDay < later.at_)
    (noSkip : SkipsNoHour before ts) (hour : microsPerHour ∣ wall) :
    wallOffsetFrom false wall before ts ≤ offsetFrom (wall - wallOffsetFrom false wall before ts) before ts := by
  induction ts generalizing before with
  | nil => exact le_rfl
  | cons t rest ih =>
    obtain ⟨far, spaced⟩ := List.pairwise_cons.mp spaced
    obtain ⟨kept, noSkip⟩ := noSkip
    have after : ∀ later ∈ rest, t.at_ < later.at_ := fun later member => by
      have apart := far later member
      have positive : (0 : ℤ) < 2 * microsPerDay := by decide
      linarith
    rw [wallOffsetFrom, Transition.wall, if_neg Bool.false_ne_true]
    split
    · next past =>
      have passed : t.at_ ≤ wall - wallOffsetFrom false wall t.offset rest :=
        le_sub_wallOffsetFrom (by linarith [le_max_right before t.offset]) fun later member =>
          (after later member).le
      rw [offsetFrom, if_pos passed]
      exact ih spaced noSkip
    · next under =>
      rw [not_le] at under
      rw [offsetFrom]
      split
      · next passed =>
        obtain ⟨k, rfl⟩ := hour
        have outside := kept k
        rw [mul_comm] at under passed ⊢
        have jump : before < t.offset := by
          by_contra back
          rw [max_eq_left (not_lt.mp back)] at under
          linarith
        rw [max_eq_right jump.le] at under
        -- Not inside the jump, the hour is the wall clock at which it starts.
        have exactly_ : k * microsPerHour - before = t.at_ := by
          by_contra different
          exact outside ⟨by omega, under⟩
        rw [exactly_, offsetFrom_of_lt after]
        exact jump.le
      · exact le_rfl

private theorem wallOffsetFrom_dvd {unit wall : ℤ} {fold : Bool} (first : unit ∣ before)
    (others : ∀ t ∈ ts, unit ∣ t.offset) : unit ∣ wallOffsetFrom fold wall before ts := by
  induction ts generalizing before with
  | nil => exact first
  | cons t rest ih =>
    rw [wallOffsetFrom]
    split
    · exact ih (others t (List.mem_cons_self ..)) fun t' later => others t' (List.mem_cons_of_mem _ later)
    · exact first

end Steps

namespace Zone

variable {tz : Zone}

/-- Converting an instant to local time and back gives the instant. -/
theorem toUtc_localAt (u : ℤ) : tz.toUtc (tz.localAt u) = u := by
  have offset : tz.utcOffset (tz.localAt u) = tz.offsetAt u :=
    wallOffsetFrom_local tz.bounded.1 tz.bounded.2 tz.spaced (by simp)
  rw [toUtc, offset, localAt, add_sub_cancel_right]

/-- Local clocks are within a day of UTC. -/
theorem localAt_bounds (u : ℤ) : u - microsPerDay < (tz.localAt u).wall ∧ (tz.localAt u).wall < u + microsPerDay := by
  have bound : |tz.offsetAt u| < microsPerDay := offsetFrom_bound tz.bounded.1 tz.bounded.2
  obtain ⟨below, above⟩ := abs_lt.mp bound
  constructor
  · simp only [localAt]; linarith
  · simp only [localAt]; linarith

theorem toUtc_bounds (l : LocalTime) : l.wall - microsPerDay < tz.toUtc l ∧ tz.toUtc l < l.wall + microsPerDay := by
  have bound : |tz.utcOffset l| < microsPerDay := wallOffsetFrom_bound tz.bounded.1 tz.bounded.2
  obtain ⟨below, above⟩ := abs_lt.mp bound
  constructor
  · rw [toUtc]; linarith
  · rw [toUtc]; linarith

/-- The start of the local hour or midnight of an instant is not after it. -/
theorem toUtc_le {u wall : ℤ} {fold : Bool} (noSkip : tz.NoHourSkipped) (hour : microsPerHour ∣ wall)
    (pass : fold = false ∨ fold = tz.foldAt u) (upTo : wall ≤ (tz.localAt u).wall) :
    tz.toUtc ⟨wall, fold⟩ ≤ u :=
  sub_wallOffsetFrom_le tz.bounded.1 tz.bounded.2 tz.spaced (by simp) noSkip hour pass upTo

/-- Whole hours resolved on the first pass denote instants in their order. -/
theorem toUtc_mono {earlier later : ℤ} (noSkip : tz.NoHourSkipped) (hour : microsPerHour ∣ earlier)
    (hour' : microsPerHour ∣ later) (order : earlier ≤ later) :
    tz.toUtc ⟨earlier, false⟩ ≤ tz.toUtc ⟨later, false⟩ := by
  apply toUtc_le noSkip hour (.inl rfl)
  have reached : tz.utcOffset ⟨later, false⟩ ≤ tz.offsetAt (tz.toUtc ⟨later, false⟩) :=
    le_add_offsetFrom tz.spaced noSkip hour'
  have start : tz.toUtc ⟨later, false⟩ = later - tz.utcOffset ⟨later, false⟩ := rfl
  simp only [localAt]
  linarith

theorem utcOffset_dvd {unit : ℤ} (divide : tz.OffsetsDivide unit) (l : LocalTime) :
    unit ∣ tz.utcOffset l := wallOffsetFrom_dvd divide.1 divide.2

end Zone

end Python
