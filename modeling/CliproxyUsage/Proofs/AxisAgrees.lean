import CliproxyUsage.Proofs.AxisEntries
import Mathlib.Order.Bounds.Basic

/-! # An axis and the floors of a window

The floor of an instant and the axis of a window are two definitions of buckets. They agree where the floor
of each instant is the last listed start up to it, and every listed start begins a bucket.
-/

namespace CliproxyUsage

open Python

/-- Every instant of the window floors to the last listed start up to it, the listed starts are bucket
starts on the wall clock, and the first bucket contains the start of the window. -/
structure AxisAgrees (tz : Zone) (bucket : Bucket) (start end_ : ℤ) (starts : List LocalTime) : Prop where
  floors : ∀ x, start ≤ x → x < end_ → ∃ f, floorToBucket x bucket tz = .ok f ∧
    IsGreatest {u | u ∈ starts.map tz.toUtc ∧ u ≤ x} (tz.toUtc f)
  boundaries : ∀ b ∈ starts, StartsBucket bucket b.wall
  first : ∃ b rest, starts = b :: rest ∧ tz.toUtc b ≤ start ∧ ∀ next ∈ rest.head?, start < tz.toUtc next

variable {tz : Zone} {bucket : Bucket} {start end_ : ℤ} {starts : List LocalTime}

/-- The entry that the floor of an instant is: the entries up to the instant are those up to it. -/
structure Places (tz : Zone) (bucket : Bucket) (start x : ℤ) (k : ℕ) : Prop where
  wall : (floorLocal bucket tz x).wall = (axisEntry bucket tz (floorLocal bucket tz start) k).wall
  utc : tz.toUtc (floorLocal bucket tz x) = tz.toUtc (axisEntry bucket tz (floorLocal bucket tz start) k)
  upTo : ∀ i, tz.toUtc (axisEntry bucket tz (floorLocal bucket tz start) i) ≤ x ↔ i ≤ k
  fits : InRange (floorLocal bucket tz x).wall →
    InRange (axisEntry bucket tz (floorLocal bucket tz start) (k + 1)).wall → InRange (tz.localAt x).wall

/-- An axis agrees with the floors that are among its entries. -/
theorem agrees_of_places (listed : bucketStarts start end_ bucket tz none = .ok starts) (nonempty : start < end_)
    (opened : Places tz bucket start start 0)
    (placed : ∀ x, start ≤ x → x < end_ → ∃ k, Places tz bucket start x k)
    (boundaries : ∀ k, tz.toUtc (axisEntry bucket tz (floorLocal bucket tz start) k) < end_ →
      StartsBucket bucket (axisEntry bucket tz (floorLocal bucket tz start) k).wall) :
    AxisAgrees tz bucket start end_ starts := by
  obtain ⟨firstFits, n, rfl, inside, ended⟩ := bucketStarts_entries listed
  have counted {x : ℤ} {k : ℕ} (place : Places tz bucket start x k) (upTo : x < end_) : k < n := by
    by_contra past
    have reached := (place.upTo n).mpr (not_lt.mp past)
    omega
  have ordered {x : ℤ} {i k : ℕ} (place : Places tz bucket start x k) (upTo : x < end_) (earlier : i ≤ k) :
      tz.toUtc (axisEntry bucket tz (floorLocal bucket tz start) i) ≤
        tz.toUtc (axisEntry bucket tz (floorLocal bucket tz start) k) := by
    have reached := (place.upTo k).mpr le_rfl
    rcases lt_or_ge (tz.toUtc (axisEntry bucket tz (floorLocal bucket tz start) k)) start with before | from_
    · have last := (opened.upTo k).mp before.le
      rw [Nat.le_zero.mp last] at earlier ⊢
      rw [Nat.le_zero.mp earlier]
    · obtain ⟨j, own⟩ := placed _ from_ (reached.trans_lt upTo)
      exact (own.upTo i).mpr (earlier.trans ((own.upTo k).mp le_rfl))
  constructor
  case floors =>
    intro x from_ upTo
    obtain ⟨k, place⟩ := placed x from_ upTo
    have within := counted place upTo
    have floorFits : InRange (floorLocal bucket tz x).wall := by
      rw [place.wall]
      cases k with
      | zero => exact firstFits
      | succ k => exact (inside k (by omega)).2
    refine ⟨floorLocal bucket tz x, ?_, ⟨?_, ?_⟩, ?_⟩
    · rw [floorToBucket_eq, if_pos ⟨place.fits floorFits (inside k within).2, floorFits⟩]
    · rw [List.map_map, place.utc]
      exact List.mem_map_of_mem (List.mem_range.mpr within)
    · rw [place.utc]
      exact (place.upTo k).mpr le_rfl
    · rintro u ⟨member, upTo'⟩
      rw [List.map_map] at member
      obtain ⟨i, _, rfl⟩ := List.mem_map.mp member
      rw [place.utc]
      exact ordered place upTo ((place.upTo i).mp upTo')
  case boundaries =>
    intro b member
    obtain ⟨k, counted, rfl⟩ := List.mem_map.mp member
    exact boundaries k (inside k (List.mem_range.mp counted)).1
  case first =>
    obtain ⟨m, rfl⟩ := Nat.exists_eq_succ_of_ne_zero (counted opened nonempty).ne'
    rw [List.range_succ_eq_map, List.map_cons]
    refine ⟨_, _, rfl, (opened.upTo 0).mpr le_rfl, ?_⟩
    intro b member
    cases m with
    | zero => cases member
    | succ m =>
      rw [List.range_succ_eq_map, List.map_cons, List.map_cons, List.head?_cons] at member
      cases member
      exact not_le.mp fun reached => absurd ((opened.upTo 1).mp reached) (by decide)

/-- The floor of an instant in the window is the last listed start up to it. -/
theorem AxisAgrees.floor (agrees : AxisAgrees tz bucket start end_ starts) {x : ℤ} (from_ : start ≤ x) (upTo : x < end_) :
    IsGreatest {u | u ∈ starts.map tz.toUtc ∧ u ≤ x} (tz.toUtc (floorLocal bucket tz x)) := by
  obtain ⟨f, floored, greatest⟩ := agrees.floors x from_ upTo
  rw [floorToBucket_eq] at floored
  split at floored
  · cases floored
    exact greatest
  · cases floored

/-- The entries before the end are listed. -/
theorem axisEntry_mem (listed : bucketStarts start end_ bucket tz none = .ok starts) {k : ℕ}
    (before : ∀ i ≤ k, tz.toUtc (axisEntry bucket tz (floorLocal bucket tz start) i) < end_) :
    axisEntry bucket tz (floorLocal bucket tz start) k ∈ starts := by
  obtain ⟨_, n, rfl, _, ended⟩ := bucketStarts_entries listed
  have counted : k < n := by
    by_contra past
    exact absurd (before n (not_lt.mp past)) (not_lt.mpr ended)
  exact List.mem_map_of_mem (List.mem_range.mpr counted)

end CliproxyUsage
