import CliproxyUsage.Proofs.JulianDays

/-! # One instant of a stored timestamp

Responses show the instant that `parseTs` reads, and the queries select and slice rows by what SQLite's
`strftime` and `datetime` read. The theorem says of which texts, and under which process zones, they read
the same second.
-/

namespace CliproxyUsage

open Python Sqlite

/-- Seconds from 1970 of the clock that `datetime` prints. -/
def printedSeconds (printed : ℤ ×ₗ ℤ) : ℤ := (ofLex printed).1 * 86400 + (ofLex printed).2

/-- `parseTs` reads an instant, and SQLite's two functions read its whole second. -/
def SameSecond (host : Host) (text : String) : Prop :=
  ∃ u, parseTs host text = .ok u ∧ unixSeconds text = some (u / microsPerSecond) ∧
    (datetime text).map printedSeconds = some (u / microsPerSecond)

/-- `parseTs` reads an instant, and the windows and slices of SQLite place the text as they place the instant. -/
def SameWindow (host : Host) (text : String) : Prop :=
  ∃ u, parseTs host text = .ok u ∧ unixSeconds text = some (u / microsPerSecond) ∧ datetime text = some (tsParam u)

/-- The offset from UTC of a value: its own, or that of the process zone at its wall clock. -/
def Host.offsetOf (host : Host) (dt : DateTime) : ℤ := dt.offset.getD (host.zone.utcOffset ⟨dt.wall, false⟩)

/-- The value converts to UTC: with an offset, to the years 1 to 9999; without one, from a wall clock that stays in
these years a day earlier and a day later. -/
def Converts (dt : DateTime) : Prop :=
  match dt.offset with
  | some offset => InRange (dt.wall - offset)
  | none => InRange (dt.wall - microsPerDay) ∧ InRange (dt.wall + microsPerDay)

/-- An hour 24 that `datetime` prints as written, because no offset moves it. -/
def WrittenAs24 (text : String) (dt : DateTime) : Prop :=
  '\x00' ∉ text.toList ∧ HourIs24 text ∧ dt.offset.getD 0 = 0

/-- When the two readings of a text agree. -/
structure ReadsAlike (host : Host) (text : String) (dt : DateTime) : Prop where
  /-- The date has dashes, and is no Julian day number. -/
  dashed : text.toList[4]? = some '-'
  /-- The value converts to UTC. -/
  converts : Converts dt
  /-- Where no offset is written, that of the process zone stays within the second. -/
  naive : '\x00' ∉ text.toList → dt.offset = none →
    0 ≤ dt.wall % microsPerSecond - host.offsetOf dt ∧ dt.wall % microsPerSecond - host.offsetOf dt < microsPerSecond
  /-- Behind a NUL, which ends the text for SQLite, stands the first second of the day in UTC. -/
  cut : '\x00' ∈ text.toList → ∃ day, parseIsoDate (text.toList.take 10) = some day ∧
    0 ≤ dt.wall - day * microsPerDay - host.offsetOf dt ∧
    dt.wall - day * microsPerDay - host.offsetOf dt < microsPerSecond
  /-- Hour 24 without an offset is not on a 29th, 30th or 31st, where `datetime` prints it a day late. -/
  normal : ¬(WrittenAs24 text dt ∧ LateDay text)

variable {host : Host} {text : String} {t : TimeValue} {dt : DateTime}

private theorem parseTs_ok_iff (python : fromIsoFormat text = some dt) {u : ℤ} :
    parseTs host text = .ok u ↔ Converts dt ∧ dt.wall - host.offsetOf dt = u := by
  rw [parseTs, python]
  obtain ⟨wall, _ | offset⟩ := dt
  · dsimp only [Converts]
    split
    · next inside => simp only [inside, true_and, Except.ok.injEq, Zone.toUtc, Host.offsetOf, Option.getD_none]
    · next outside => simp only [outside, false_and, reduceCtorEq]
  · dsimp only [Converts]
    split
    · next inside => simp only [inside, true_and, Except.ok.injEq, Host.offsetOf, Option.getD_some]
    · next outside => simp only [outside, false_and, reduceCtorEq]

/-- The instant is within a day of the wall clock. -/
private theorem offsetOf_bound (python : fromIsoFormat text = some dt) : |host.offsetOf dt| < microsPerDay := by
  rw [Host.offsetOf]
  cases written : dt.offset with
  | none =>
    have bounds := @Zone.toUtc_bounds host.zone ⟨dt.wall, false⟩
    rw [Zone.toUtc] at bounds
    rw [Option.getD_none, abs_lt]
    constructor <;> linarith [bounds.1, bounds.2]
  | some offset =>
    obtain ⟨_, _, _, _, _, ⟨_, _, naive⟩ | ⟨_, timed⟩⟩ := fromIsoFormat_eq_some python
    · rw [naive] at written
      cases written
    · obtain ⟨_, _, _, _, near⟩ := parseIsoTime_eq_some timed
      exact near offset written

/-- The seconds that SQLite counts, against those of the instant. -/
private theorem seconds_iff (read : Alike text t dt) :
    t.seconds = (dt.wall - host.offsetOf dt) / microsPerSecond ↔
      ('\x00' ∉ text.toList → dt.offset = none → 0 ≤ dt.wall % microsPerSecond - host.offsetOf dt ∧
        dt.wall % microsPerSecond - host.offsetOf dt < microsPerSecond) ∧
      ('\x00' ∈ text.toList → ∃ day, parseIsoDate (text.toList.take 10) = some day ∧
        0 ≤ dt.wall - day * microsPerDay - host.offsetOf dt ∧
        dt.wall - day * microsPerDay - host.offsetOf dt < microsPerSecond) := by
  by_cases nul : '\x00' ∈ text.toList
  · obtain ⟨clock, offset⟩ := read.cut nul
    simp only [nul, not_true, false_imp_iff, true_imp_iff, true_and, read.date, Option.some.injEq, exists_eq_left']
    rw [TimeValue.seconds, clock, offset]
    simp only [microsPerDay, microsPerSecond]
    omega
  · have wall := read.clock nul
    simp only [nul, not_false_iff, false_imp_iff, true_imp_iff, and_true]
    rw [TimeValue.seconds]
    rcases read.offset nul with ⟨none_, offset⟩ | some_
    · simp only [none_, true_imp_iff, offset]
      simp only [microsPerSecond] at wall ⊢
      omega
    · simp only [some_, reduceCtorEq, false_imp_iff, iff_true, Host.offsetOf, Option.getD_some]
      simp only [microsPerSecond] at wall ⊢
      omega

private theorem writtenAs24_iff (read : Alike text t dt) : WrittenAs24 text dt ↔ t.clock = 86400 ∧ t.offset = 0 := by
  by_cases nul : '\x00' ∈ text.toList
  · have clock := (read.cut nul).1
    simp only [WrittenAs24, nul, not_true, false_and, clock, false_iff]
    omega
  · have utc : dt.offset.getD 0 = 0 ↔ t.offset = 0 := by
      rcases read.offset nul with ⟨none_, offset⟩ | some_
      · simp [none_, offset]
      · rw [some_, Option.getD_some, microsPerSecond]
        omega
    rw [WrittenAs24, utc, read.hour nul]
    simp only [nul, not_false_iff, true_and]

private theorem seconds_of_utc (utc : t.offset = 0) : t.seconds = t.day * 86400 + t.clock := by
  rw [TimeValue.seconds, utc, sub_zero]

/-- `datetime` prints the second of the value, except for hour 24 of a late day. -/
private theorem printedSeconds_iff (read : Alike text t dt) :
    printedSeconds t.printed = t.seconds ↔ ¬(WrittenAs24 text dt ∧ LateDay text) := by
  obtain ⟨least, most⟩ := read.range
  rw [writtenAs24_iff read, ← read.recompute, TimeValue.printed]
  split
  · simp only [printedSeconds, ofLex_toLex]
    omega
  · next none_ =>
    rw [not_not] at none_
    split
    · next late =>
      simp only [printedSeconds, ofLex_toLex, seconds_of_utc none_]
      split <;> grind
    · next early =>
      simp only [printedSeconds, ofLex_toLex, seconds_of_utc none_]
      simp [early]

/-- It prints the normal form of that second, except for hour 24. -/
private theorem printed_iff (read : Alike text t dt) :
    t.printed = toLex (t.seconds / 86400, t.seconds % 86400) ↔ ¬WrittenAs24 text dt := by
  obtain ⟨least, most⟩ := read.range
  rw [writtenAs24_iff read, TimeValue.printed]
  split
  · next some_ => simp [some_]
  · next none_ =>
    rw [not_not] at none_
    split
    · simp only [toLex_inj, Prod.mk.injEq, true_and]
      grind
    · simp only [toLex_inj, Prod.mk.injEq, seconds_of_utc none_]
      omega

private theorem readsAlike_iff (dashed : text.toList[4]? = some '-') (read : Alike text t dt) :
    ReadsAlike host text dt ↔ Converts dt ∧
      t.seconds = (dt.wall - host.offsetOf dt) / microsPerSecond ∧ ¬(WrittenAs24 text dt ∧ LateDay text) := by
  rw [seconds_iff read]
  constructor
  · rintro ⟨_, converts, naive, cut, normal⟩
    exact ⟨converts, ⟨naive, cut⟩, normal⟩
  · rintro ⟨converts, ⟨naive, cut⟩, normal⟩
    exact ⟨dashed, converts, naive, cut, normal⟩

private theorem sameSecond_iff (sql : timeValue text = some t) (python : fromIsoFormat text = some dt) :
    SameSecond host text ↔ Converts dt ∧
      t.seconds = (dt.wall - host.offsetOf dt) / microsPerSecond ∧ printedSeconds t.printed = t.seconds := by
  simp only [SameSecond, parseTs_ok_iff python, unixSeconds, datetime, sql, Option.map_some, Option.some.injEq,
    and_assoc, exists_and_left, exists_eq_left']
  refine and_congr_right fun _ => and_congr_right fun second => ?_
  rw [second]

private theorem sameWindow_iff (sql : timeValue text = some t) (python : fromIsoFormat text = some dt) :
    SameWindow host text ↔ Converts dt ∧
      t.seconds = (dt.wall - host.offsetOf dt) / microsPerSecond ∧
      t.printed = toLex (t.seconds / 86400, t.seconds % 86400) := by
  simp only [SameWindow, parseTs_ok_iff python, unixSeconds, datetime, sql, Option.map_some, Option.some.injEq,
    and_assoc, exists_and_left, exists_eq_left']
  refine and_congr_right fun _ => and_congr_right fun second => ?_
  rw [second, tsParam]

/-- Where both parsers accept a text, `parseTs` and SQLite read one second exactly of the texts and zones above, and
the windows and slices take the text for that instant where hour 24 is not written. -/
theorem one_instant_iff (host : Host) (sql : timeValue text = some t) (python : fromIsoFormat text = some dt) :
    (SameSecond host text ↔ ReadsAlike host text dt) ∧
      (SameWindow host text ↔ ReadsAlike host text dt ∧ ¬WrittenAs24 text dt) := by
  rw [sameSecond_iff sql python, sameWindow_iff sql python]
  by_cases dashed : text.toList[4]? = some '-'
  · have read := alike dashed sql python
    rw [readsAlike_iff dashed read, printedSeconds_iff read, printed_iff read]
    tauto
  · have apart : t.seconds ≠ (dt.wall - host.offsetOf dt) / microsPerSecond := by
      have bound : |host.offsetOf dt| < microsPerDay := offsetOf_bound python
      obtain ⟨below, above⟩ := abs_lt.mp bound
      apply undashed_apart dashed sql python
      constructor <;> linarith
    have unlike : ¬ReadsAlike host text dt := fun alike => dashed alike.dashed
    simp only [apart, unlike, false_and, and_false, and_self]

/-- A server process in Athens, with its last winter offset and its first summer one. -/
def athens : Host :=
  ⟨asciiLower, ⟨2 * microsPerHour, [⟨1774746000000000, 3 * microsPerHour⟩], by decide, by decide⟩, 32766⟩

/-- With an offset the process zone does not matter. -/
theorem one_instant_offset : SameSecond athens "2026-03-01T12:00:00.5-05:00" ∧
    SameWindow athens "2026-03-01T12:00:00.5-05:00" := by
  have sql : timeValue "2026-03-01T12:00:00.5-05:00" = some ⟨20513, 43200, -18000, false⟩ := by decide
  have python : fromIsoFormat "2026-03-01T12:00:00.5-05:00" = some ⟨1772366400500000, some (-18000000000)⟩ := by decide
  have agree := one_instant_iff athens sql python
  have alike : ReadsAlike athens "2026-03-01T12:00:00.5-05:00" ⟨1772366400500000, some (-18000000000)⟩ := by
    refine ⟨by decide, (by decide : InRange (1772366400500000 - -18000000000)), nofun, fun nul => ?_, fun late => ?_⟩
    · exact absurd nul (by decide)
    · exact absurd late.1.2.2 (by decide)
  refine ⟨agree.1.mpr alike, agree.2.mpr ⟨alike, fun written => ?_⟩⟩
  exact absurd written.2.2 (by decide)

/-- Without one, `parseTs` takes the wall clock in the process zone, and SQLite in UTC. -/
theorem one_instant_shifts : parseTs athens "2026-03-01T12:00:00" = .ok 1772359200000000 ∧
    unixSeconds "2026-03-01T12:00:00" = some 1772366400 ∧
    (datetime "2026-03-01T12:00:00").map printedSeconds = some 1772366400 ∧
    ¬SameSecond athens "2026-03-01T12:00:00" := by
  have parsed : parseTs athens "2026-03-01T12:00:00" = .ok 1772359200000000 := by decide
  have counted : unixSeconds "2026-03-01T12:00:00" = some 1772366400 := by decide
  refine ⟨parsed, counted, by decide, ?_⟩
  rintro ⟨u, again, same, _⟩
  rw [parsed] at again
  cases again
  rw [counted] at same
  exact absurd same (by decide)

end CliproxyUsage
