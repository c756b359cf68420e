import CliproxyUsage.Model.Usage
import CliproxyUsage.Proofs.AxisEntries
import CliproxyUsage.Proofs.Cells
import CliproxyUsage.Proofs.Stamps
import Mathlib.Data.List.Pairwise

/-! # Every counted slice has a bucket

The edges of an axis ascend, and the first one is not after the slice of any request from the start
of the window on. So the bucket index skips no counted cell.
-/

namespace CliproxyUsage

open Python

variable {tz : Zone} {start end_ : ℤ} {bucket : Bucket}

/-- A bucket start that the next ones do not precede: for days and weeks a midnight on its first pass. -/
def Aligned (bucket : Bucket) (cur : LocalTime) : Prop :=
  bucket = .hour ∨ ∃ d, cur = ⟨d * microsPerDay, false⟩

private theorem hour_dvd_day (d : ℤ) : microsPerHour ∣ d * microsPerDay := ⟨d * 24, by
  rw [show microsPerDay = microsPerHour * 24 from rfl]
  ring⟩

/-- The entries of an axis are aligned. -/
private theorem axisEntry_aligned (k : ℕ) : Aligned bucket (axisEntry bucket tz (floorLocal bucket tz start) k) := by
  have onBoundary : StartsBucket bucket (bucket.floorWall (tz.localAt start).wall + k * bucket.period) :=
    Bucket.starts_add (Bucket.floorWall_starts _) k
  cases bucket with
  | hour => exact .inl rfl
  | day =>
    obtain ⟨d, midnight⟩ := onBoundary
    exact .inr ⟨d, by rw [axisEntry_days (by decide), midnight]⟩
  | week =>
    obtain ⟨d, midnight, _⟩ := onBoundary
    exact .inr ⟨d, by rw [axisEntry_days (by decide), midnight]⟩

/-- The entries of an axis ascend. -/
private theorem axisEntry_le (noSkip : tz.NoHourSkipped) {i j : ℕ} (order : i ≤ j) :
    tz.toUtc (axisEntry bucket tz (floorLocal bucket tz start) i) ≤
      tz.toUtc (axisEntry bucket tz (floorLocal bucket tz start) j) := by
  have scaled : (i : ℤ) * bucket.period ≤ j * bucket.period :=
    Int.mul_le_mul_of_nonneg_right (by exact_mod_cast order) bucket.period_pos.le
  by_cases hours : bucket = .hour
  · subst hours
    rw [toUtc_axisEntry_hour, toUtc_axisEntry_hour]
    exact Int.add_le_add_left scaled _
  · obtain ⟨d, earlier⟩ := (@axisEntry_aligned tz start bucket i).resolve_left hours
    obtain ⟨d', later⟩ := (@axisEntry_aligned tz start bucket j).resolve_left hours
    have walls : (axisEntry bucket tz (floorLocal bucket tz start) i).wall ≤
        (axisEntry bucket tz (floorLocal bucket tz start) j).wall := by
      rw [axisEntry_wall hours, axisEntry_wall hours]
      exact Int.add_le_add_left scaled _
    rw [earlier, later] at walls ⊢
    exact Zone.toUtc_mono noSkip (hour_dvd_day d) (hour_dvd_day d') walls

private theorem edges_sorted {starts : List LocalTime} (sorted : (starts.map tz.toUtc).Pairwise (· ≤ ·)) :
    (edges tz starts).Pairwise (· ≤ ·) := by
  rw [edges, List.pairwise_map]
  apply (List.pairwise_map.mp sorted).imp
  intro first second order
  exact Int.tdiv_le_tdiv (by decide) order

/-- A whole local hour, in a zone of whole quarters, is an edge in whole slices. -/
private theorem slices_of_toUtc (divide : tz.OffsetsDivide (sliceSeconds * microsPerSecond)) {l : LocalTime}
    (hour : microsPerHour ∣ l.wall) : ∃ k, tz.toUtc l = k * (sliceSeconds * microsPerSecond) := by
  obtain ⟨hours, wall⟩ := hour
  obtain ⟨quarters, offset⟩ := Zone.utcOffset_dvd divide l
  refine ⟨hours * 4 - quarters, ?_⟩
  rw [Zone.toUtc, wall, offset, microsPerHour, sliceSeconds]
  ring

/-- Every entry of an axis is a whole number of slices. -/
private theorem axisEntry_slices (divide : tz.OffsetsDivide (sliceSeconds * microsPerSecond)) (k : ℕ) :
    ∃ n, tz.toUtc (axisEntry bucket tz (floorLocal bucket tz start) k) = n * (sliceSeconds * microsPerSecond) := by
  rcases @axisEntry_aligned tz start bucket k with rfl | ⟨d, midnight⟩
  · obtain ⟨n, first⟩ := slices_of_toUtc divide (l := floorLocal .hour tz start)
      (Bucket.hour_dvd (Bucket.floorWall_starts _))
    refine ⟨n + 4 * k, ?_⟩
    rw [toUtc_axisEntry_hour, first, microsPerHour, sliceSeconds]
    ring
  · rw [midnight]
    exact slices_of_toUtc divide (hour_dvd_day d)

/-- Among ascending edges in whole slices, from the first one on, a slice has the position of the bucket that contains
it whole. -/
private theorem slicePosition_bounds {starts : List LocalTime} (ascending : (edges tz starts).Pairwise (· ≤ ·))
    (whole : ∀ b ∈ starts, ∃ k, tz.toUtc b = k * (sliceSeconds * microsPerSecond)) {first : LocalTime}
    (zeroth : starts[0]? = some first) {q : ℤ} (reached : tz.toUtc first ≤ q * (sliceSeconds * microsPerSecond)) :
    ∃ i b, slicePosition (edges tz starts) q = some i ∧ starts[i]? = some b ∧
      tz.toUtc b ≤ q * (sliceSeconds * microsPerSecond) ∧
      ∀ next, starts[i + 1]? = some next → (q + 1) * (sliceSeconds * microsPerSecond) ≤ tz.toUtc next := by
  -- An edge is a whole number of slices, so comparing it with a slice's first second compares instants.
  have edge {i : ℕ} {b : LocalTime} (at_ : starts[i]? = some b) :
      ∃ k, tz.toUtc b = k * (sliceSeconds * microsPerSecond) ∧ (edges tz starts)[i]? = some (k * sliceSeconds) := by
    obtain ⟨k, here⟩ := whole b (List.mem_of_getElem? at_)
    refine ⟨k, here, ?_⟩
    rw [edges, List.getElem?_map, at_, Option.map_some, here, ← mul_assoc]
    exact congrArg some (Int.mul_tdiv_cancel _ (by decide))
  have below (i : ℕ) {b : LocalTime} (at_ : starts[i]? = some b) :
      i < (edges tz starts).bisectRight (q * sliceSeconds) ↔ tz.toUtc b ≤ q * (sliceSeconds * microsPerSecond) := by
    obtain ⟨k, here, listed⟩ := edge at_
    obtain ⟨bound, value⟩ := List.getElem?_eq_some_iff.mp listed
    rw [List.lt_bisectRight_iff ascending _ bound, value, here, sliceSeconds, microsPerSecond]
    omega
  have length : (edges tz starts).length = starts.length := List.length_map _
  have most := List.bisectRight_le_length ascending (q * sliceSeconds)
  obtain ⟨i, position⟩ := Nat.exists_eq_succ_of_ne_zero ((below 0 zeroth).mpr reached).ne'
  have inside : i < starts.length := by omega
  refine ⟨i, starts[i], ?_, List.getElem?_eq_getElem inside, ?_, ?_⟩
  · rw [slicePosition, position]
  · apply (below i (List.getElem?_eq_getElem inside)).mp
    omega
  · intro next later
    obtain ⟨k, here, _⟩ := edge later
    have past := mt (below (i + 1) later).mpr (by omega)
    rw [here] at past ⊢
    simp only [sliceSeconds, microsPerSecond] at past ⊢
    omega

/-- A slice between the start and the end of an axis has the position of the bucket that contains it whole. -/
theorem position_bounds (noSkip : tz.NoHourSkipped) (divide : tz.OffsetsDivide (sliceSeconds * microsPerSecond))
    {starts : List LocalTime} (listed : bucketStarts start end_ bucket tz none = .ok starts) {s : ℤ}
    (from_ : start / microsPerSecond ≤ s) (upTo : (s + 1) * microsPerSecond ≤ end_) :
    ∃ i b, slicePosition (edges tz starts) (s.tdiv sliceSeconds) = some i ∧ starts[i]? = some b ∧
      tz.toUtc b ≤ s.tdiv sliceSeconds * (sliceSeconds * microsPerSecond) ∧
      ∀ next, starts[i + 1]? = some next →
        (s.tdiv sliceSeconds + 1) * (sliceSeconds * microsPerSecond) ≤ tz.toUtc next := by
  obtain ⟨_, n, rfl, _, ended⟩ := bucketStarts_entries listed
  have notAfter := @floorLocal_le bucket tz start noSkip
  have nonempty : 0 < n := by
    refine Nat.pos_of_ne_zero fun none_ => ?_
    rw [none_, axisEntry, if_pos rfl] at ended
    rw [microsPerSecond] at from_ upTo
    omega
  apply slicePosition_bounds
  · apply edges_sorted
    rw [List.map_map, List.pairwise_map]
    exact List.pairwise_lt_range.imp fun order => axisEntry_le noSkip (Nat.le_of_lt order)
  · intro b member
    obtain ⟨k, _, rfl⟩ := List.mem_map.mp member
    exact axisEntry_slices divide k
  · rw [List.getElem?_map, List.getElem?_range nonempty, Option.map_some, axisEntry, if_pos rfl]
  · -- The first bucket starts with a slice, which is not after that of the start.
    obtain ⟨k, here⟩ := @axisEntry_slices tz start bucket divide 0
    rw [axisEntry, if_pos rfl] at here
    rw [here] at notAfter ⊢
    apply Int.mul_le_mul_of_nonneg_right ?_ (by decide)
    apply Int.le_tdiv_of_mul_le (by decide)
    simp only [sliceSeconds, microsPerSecond] at notAfter from_ ⊢
    omega

/-- Every slice of a request between the start and the end of an axis has a position on it. -/
theorem position_total (noSkip : tz.NoHourSkipped) (divide : tz.OffsetsDivide (sliceSeconds * microsPerSecond))
    {requested : Option Bucket} {ax : Axis} (made : axisFrom start end_ requested tz = .ok ax) {s : ℤ}
    (from_ : start / microsPerSecond ≤ s) (upTo : (s + 1) * microsPerSecond ≤ end_) :
    ∃ i < ax.starts.length, slicePosition ax.edges (s.tdiv sliceSeconds) = some i := by
  simp only [axisFrom, Except.bind_def, Except.bind_eq_ok, Except.ok.injEq] at made
  obtain ⟨bucket, _, starts, listed, rfl⟩ := made
  obtain ⟨i, b, position, at_, _⟩ := position_bounds noSkip divide listed from_ upTo
  obtain ⟨inside, _⟩ := List.getElem?_eq_some_iff.mp at_
  exact ⟨i, inside, position⟩

section Counted

open Machine Sqlite

variable {host : Host} {pricing : PricingMap} {window : Window} {filters : Filters} {table : Requests}

/-- The start of a window; all time starts with the row that SQLite sorts first. -/
def Window.opening (host : Host) (window : Window) (table : Requests) : Option ℤ :=
  match window.start with
  | some start => some start
  | none => (dataStartText table).bind fun text => (parseTs host text).toOption

/-- Every request that SQLite selects for the window lies in it, by its second. -/
def Requests.Selects (host : Host) (window : Window) (filters : Filters) (table : Requests) : Prop :=
  ∀ row ∈ table.rows, counted (some window) filters row → ∃ s, unixSeconds row.timestamp = some s ∧
    (∀ start ∈ window.opening host table, start / microsPerSecond ≤ s) ∧ (s + 1) * microsPerSecond ≤ window.end_

/-- Every timestamp is a stamp with an hour of the day, and in an all-time window with an offset that
SQLite knows. -/
def Requests.Stamped (table : Requests) (window : Window) : Prop :=
  ∀ row ∈ table.rows, ∃ stamp : Stamp,
    row.timestamp = stamp.text ∧ stamp.hour ≤ 23 ∧ (window.start = none → stamp.NearZone)

theorem day_clock_le {a b : ℤ} :
    (toLex (a / 86400, a % 86400) : ℤ ×ₗ ℤ) ≤ toLex (b / 86400, b % 86400) ↔ a ≤ b := by
  rw [Prod.Lex.toLex_le_toLex]
  dsimp only
  omega

/-- The row that SQLite sorts first is not after any row that it reads. -/
private theorem opening_le (stamped : table.Stamped window) {row : RequestRow} (stored : row ∈ table.rows) {s : ℤ}
    (key : row.startKey = ((toLex (s / 86400, s % 86400) : ℤ ×ₗ ℤ) : WithBot _))
    (from_ : ∀ start ∈ window.start, start / microsPerSecond ≤ s) :
    ∀ start ∈ window.opening host table, start / microsPerSecond ≤ s := by
  intro start opened
  rw [Option.mem_def, Window.opening] at opened
  split at opened
  · next given =>
    cases opened
    exact from_ start given
  · next allTime =>
    obtain ⟨text, first, parsed⟩ := Option.bind_eq_some_iff.mp opened
    obtain ⟨m, least, rfl⟩ := Option.map_eq_some_iff.mp first
    obtain ⟨stamp, written, early, near⟩ := stamped m (List.argmin_mem least)
    rw [written] at parsed
    obtain ⟨v, read, seconds⟩ := timeValue_of_parseTs early (near allTime) (Except.toOption_eq_some.mp parsed)
    have order := List.le_of_mem_argmin stored least
    rw [key, RequestRow.startKey, written, datetime_early early read] at order
    rw [microsPerSecond, ← seconds]
    exact day_clock_le.mp (WithBot.coe_le_coe.mp order)

/-- Of such timestamps SQLite selects those in the window. -/
theorem Requests.Stamped.selects (stamped : table.Stamped window) : table.Selects host window filters := by
  intro row stored counts
  obtain ⟨stamp, written, early, _⟩ := stamped row stored
  simp only [counted, Option.all_some, Bool.and_eq_true, Window.admits] at counts
  obtain ⟨⟨⟨admitted, _⟩, _⟩, _⟩ := counts
  cases read : timeValue stamp.text with
  | none => simp [written, datetime, read] at admitted
  | some v =>
    have printed := datetime_early early read
    rw [written, printed] at admitted
    simp only [Bool.and_eq_true, tsParam] at admitted
    obtain ⟨from_, upTo⟩ := admitted
    refine ⟨v.seconds, ?_, ?_, ?_⟩
    · rw [written, unixSeconds, read, Option.map_some]
    · apply opening_le stamped stored
      · rw [RequestRow.startKey, written, printed]
        rfl
      · intro start given
        rw [Option.mem_def.mp given, Option.all_some] at from_
        exact day_clock_le.mp (of_decide_eq_true from_)
    · have before := not_le.mp (mt day_clock_le.mpr (not_le.mpr (of_decide_eq_true upTo)))
      rw [microsPerSecond] at before ⊢
      omega

/-- An axis over stored rows begins at the opening of its window. -/
private theorem axisFrom_of_axis {requested : Option Bucket} {ax : Axis}
    (axed : (axis host window requested tz).run table = .ok ax) {row : RequestRow} (stored : row ∈ table.rows) :
    ∃ start ∈ window.opening host table, axisFrom start window.end_ requested tz = .ok ax := by
  rw [axis] at axed
  rw [Window.opening]
  cases given : window.start with
  | some start =>
    simp only [given, Script.run_bind, Script.run_pure, Except.bind_ok, Script.run_lift] at axed
    exact ⟨start, rfl, axed⟩
  | none =>
    simp only [given, dataStart, Script.run_bind, Script.run_query, Script.run_pure, Except.bind_eq_ok, Except.bind_ok,
      Script.run_lift] at axed
    obtain ⟨first, found, made⟩ := axed
    cases text : dataStartText table with
    | none =>
      rw [dataStartText, Option.map_eq_none_iff, List.argmin_eq_none] at text
      exact absurd (text ▸ stored) List.not_mem_nil
    | some text =>
      simp only [text, Script.run_bind, Script.run_lift, Script.run_pure, Except.bind_eq_ok, Except.ok.injEq] at found
      obtain ⟨start, parsed, rfl⟩ := found
      refine ⟨start, ?_, made⟩
      simp only [Option.bind_some, parsed]
      rfl

/-- Every cell of a query that selects within its window has a position on the query's axis. -/
theorem position_of_cell (selects : table.Selects host window filters) {tz : Zone} (noSkip : tz.NoHourSkipped)
    (divide : tz.OffsetsDivide (sliceSeconds * microsPerSecond)) {requested : Option Bucket} {ax : Axis}
    (axed : (axis host window requested tz).run table = .ok ax) {cells : List Cell}
    (fetched : (fetchCells host (some window) filters pricing).run table = .ok cells) :
    ∀ c ∈ cells, ∃ i < ax.starts.length, ax.position c = some i := by
  intro c member
  obtain ⟨group, grouped, lastUsed, _, rfl⟩ := mem_cells fetched member
  obtain ⟨some_, members⟩ := cellGroups_members grouped
  obtain ⟨row, present⟩ := List.exists_mem_of_ne_nil _ some_
  obtain ⟨stored, counts, atKey⟩ := members row present
  obtain ⟨s, second, from_, upTo⟩ := selects row stored counts
  have slice : group.1.sliceNo = some (s.tdiv sliceSeconds) := by
    rw [← atKey]
    change row.sliceNo = _
    rw [RequestRow.sliceNo, second, Option.map_some]
  rw [Axis.position, summedCell, slice]
  obtain ⟨start, opened, made⟩ := axisFrom_of_axis axed stored
  exact position_total noSkip divide made (from_ start opened) upTo

end Counted

end CliproxyUsage
