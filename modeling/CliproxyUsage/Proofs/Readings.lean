import CliproxyUsage.Model.Instants
import CliproxyUsage.Python.IsoForms
import CliproxyUsage.Sqlite.DateForms

/-! # Two readings of one text

What SQLite's date functions and `datetime.fromisoformat` make of a text that both of them accept.
-/

namespace CliproxyUsage

open Python Sqlite Digits

/-- Both parsers read the same offset, where both accept it. -/
private theorem offsets_agree {chars : List Char} {read : Option ℤ} {offset : ℤ}
    (starts : ∀ c rest, chars = c :: rest → isZoneStart c = true) (python : parseOffset chars = some read)
    (sql : parseTimezone chars = some offset) : read = none ∧ offset = 0 ∨ read = some (offset * 60 * microsPerSecond) := by
  cases chars with
  | nil =>
    cases python
    cases sql
    exact .inl ⟨rfl, rfl⟩
  | cons sign fields =>
    have start := starts sign fields rfl
    by_cases letter : sign = 'Z'
    · subst letter
      obtain ⟨rfl, rfl⟩ := parseOffset_letter python
      cases sql
      exact .inr rfl
    · have signed : sign = '+' ∨ sign = '-' := by
        simpa [isZoneStart, letter] using start
      obtain ⟨hour, minute, tail, tail', readHour, readMinute, blank, rfl⟩ := parseTimezone_eq_some signed sql
      obtain ⟨clock, front, _, _, _, rfl⟩ := parseOffset_signed letter python
      rcases parseClock_extended readHour readMinute front with ⟨_, rfl⟩ | ⟨after, _, _, rfl, _⟩
      · refine .inr (congrArg some ?_)
        have micros : ClockFields.micros { hour, minute } = ((hour * 60 + minute : ℕ) : ℤ) * 60 * microsPerSecond := by
          simp only [ClockFields.micros]
          push_cast
          ring
        rw [micros]
        split
        · ring
        · rfl
      · cases blank

/-- Digits and colons stand before the first character of an offset. -/
private theorem span_clock_cons {c : Char} (inClock : isZoneStart c = false) (rest : List Char) :
    (c :: rest).takeWhile (fun c => !isZoneStart c) = c :: rest.takeWhile (fun c => !isZoneStart c) ∧
      (c :: rest).dropWhile (fun c => !isZoneStart c) = rest.dropWhile fun c => !isZoneStart c := by
  simp [inClock]

private theorem span_clock_two {chars rest : List Char} {v : ℕ} (read : fixed 2 chars = some (v, rest)) :
    fixed 2 (chars.takeWhile fun c => !isZoneStart c) = some (v, rest.takeWhile fun c => !isZoneStart c) ∧
      chars.dropWhile (fun c => !isZoneStart c) = rest.dropWhile fun c => !isZoneStart c := by
  obtain ⟨a, b, rfl, first, second, rfl⟩ := fixed_two read
  rw [(span_clock_cons (not_isZoneStart first) _).1, (span_clock_cons (not_isZoneStart second) _).1,
    (span_clock_cons (not_isZoneStart first) _).2, (span_clock_cons (not_isZoneStart second) _).2]
  exact ⟨fixed_two_cons first second _, rfl⟩

/-- Where the clock ends without a fraction or with one, SQLite goes on with the offset. -/
private theorem skipFraction_zone {chars : List Char} {offset : ℤ} (sql : parseTimezone (skipFraction chars) = some offset)
    (ends : (chars.takeWhile fun c => !isZoneStart c) = [] ∨ ∃ mark fraction micro,
      (chars.takeWhile fun c => !isZoneStart c) = mark :: fraction ∧ (mark = '.' ∨ mark = ',') ∧
        parseFraction fraction = some micro) :
    parseTimezone (chars.dropWhile fun c => !isZoneStart c) = some offset := by
  have whole := List.takeWhile_append_dropWhile (p := fun c => !isZoneStart c) (l := chars)
  rcases ends with none_ | ⟨mark, fraction, micro, some_, point, read⟩
  · rw [none_, List.nil_append] at whole
    rw [whole]
    cases chars with
    | nil => exact sql
    | cons c rest =>
      have point : c ≠ '.' := by
        rintro rfl
        exact absurd (zone_starts _ _ whole) (by decide)
      rwa [skipFraction] at sql
      exact fun _ _ same => point (List.cons.inj same).1
  · obtain ⟨some_', digits, _⟩ := parseFraction_eq_some read
    obtain ⟨d, ds, rfl⟩ := List.exists_cons_of_ne_nil some_'
    rw [some_] at whole
    rw [← whole] at sql
    rcases point with rfl | rfl
    · rw [List.cons_append, List.cons_append, skipFraction, if_pos (digits d (List.mem_cons_self ..)),
        List.dropWhile_append_of_pos fun c later => digits c (List.mem_cons_of_mem _ later)] at sql
      cases zone : chars.dropWhile fun c => !isZoneStart c with
      | nil => rwa [zone] at sql
      | cons c rest =>
        have solid : c.isDigit = false := by
          cases digit : c.isDigit with
          | false => rfl
          | true => exact absurd (zone_starts _ _ zone) (by simp [not_isZoneStart digit])
        rwa [zone, List.dropWhile_cons, if_neg (by simp [solid])] at sql
    · cases sql

/-- Where both parsers accept a time, they read the same second and the same offset. -/
private theorem times_agree {chars : List Char} {time clock offset : ℤ} {read : Option ℤ}
    (python : parseIsoTime chars = some (time, read)) (sql : parseHhMmSs chars = some (clock, offset)) :
    ∃ hour rest, fixed 2 chars = some (hour, rest) ∧ (clock = 86400 ↔ hour = 24) ∧ clock ≤ 86400 ∧ 0 ≤ clock ∧
      time / microsPerSecond = clock ∧ (read = none ∧ offset = 0 ∨ read = some (offset * 60 * microsPerSecond)) := by
  simp only [parseIsoTime, Option.bind_eq_bind, Option.bind_eq_some_iff, Option.some.injEq, Prod.mk.injEq] at python
  obtain ⟨fields, front, _, timed, _, back, rfl, rfl⟩ := python
  obtain ⟨hour, minute, second, tail, rest, readHour, readMinute, rfl, seconds⟩ := parseHhMmSs_eq_some sql
  obtain ⟨_, _, small⟩ := parseClock_eq_some front
  obtain ⟨rfl, bounds⟩ := timeOfDay_eq_some timed small
  obtain ⟨frontHour, afterHour⟩ := span_clock_two readHour
  obtain ⟨frontMinute, afterMinute⟩ := span_clock_two readMinute
  rw [(span_clock_cons (by decide) tail).1] at frontHour
  rw [afterHour, (span_clock_cons (by decide) tail).2, afterMinute] at back
  -- The clock that Python reads, and where SQLite reads the offset.
  have agree : (∃ micro < 1000000, fields = ⟨hour, minute, second, micro⟩) ∧
      parseTimezone (rest.dropWhile fun c => !isZoneStart c) = some offset := by
    rcases seconds with ⟨rfl, noColon, zone⟩ | ⟨tail', rest', rfl, readSecond, zone⟩
    · rcases parseClock_extended frontHour frontMinute front with ⟨none_, rfl⟩ | ⟨_, _, _, more, _⟩
      · have whole := List.takeWhile_append_dropWhile (p := fun c => !isZoneStart c) (l := rest)
        rw [none_, List.nil_append] at whole
        rw [whole]
        exact ⟨⟨0, by decide, rfl⟩, zone⟩
      · have whole := List.takeWhile_append_dropWhile (p := fun c => !isZoneStart c) (l := rest)
        rw [more] at whole
        rw [← whole] at noColon
        exact absurd rfl noColon
    · obtain ⟨frontSecond, afterSecond⟩ := span_clock_two readSecond
      rw [(span_clock_cons (by decide) tail').1] at frontMinute
      rw [(span_clock_cons (by decide) tail').2, afterSecond]
      rcases parseClock_extended frontHour frontMinute front with ⟨none_, _⟩ | ⟨tail'', second', rest'', same, again, ends⟩
      · cases none_
      · cases same
        rw [frontSecond] at again
        cases again
        rcases ends with ⟨none_, rfl⟩ | ⟨mark, fraction, micro, some_, point, read, rfl⟩
        · exact ⟨⟨0, by decide, rfl⟩, skipFraction_zone zone (.inl none_)⟩
        · exact ⟨⟨micro, small, rfl⟩, skipFraction_zone zone (.inr ⟨mark, fraction, micro, some_, point, read⟩)⟩
  obtain ⟨⟨micro, _, rfl⟩, zone⟩ := agree
  refine ⟨hour, ':' :: tail, readHour, ?_, ?_, ?_, ?_, offsets_agree zone_starts back zone⟩
  all_goals
    simp only [ClockFields.micros, microsPerSecond] at bounds ⊢
    omega

/-- The hour of a text with a dashed date is written as 24. -/
def HourIs24 (text : String) : Prop := (fixed 2 (text.toList.drop 11)).any (·.1 = 24) = true

/-- The day of a dashed date is a 29th, 30th or 31st. -/
def LateDay (text : String) : Prop := (fixed 2 (text.toList.drop 8)).any (·.1 > 28) = true

/-- What the two parsers read of a text with a dashed date: SQLite reads up to a NUL, which can only stand between the
date and the time, and otherwise both read the same time of day and the same offset. -/
structure Alike (text : String) (t : TimeValue) (dt : DateTime) : Prop where
  date : parseIsoDate (text.toList.take 10) = some t.day
  recompute : t.recompute = true ↔ LateDay text
  cut : '\x00' ∈ text.toList → t.clock = 0 ∧ t.offset = 0
  clock : '\x00' ∉ text.toList → dt.wall / microsPerSecond = t.day * 86400 + t.clock
  range : 0 ≤ t.clock ∧ t.clock ≤ 86400
  hour : '\x00' ∉ text.toList → (t.clock = 86400 ↔ HourIs24 text)
  offset : '\x00' ∉ text.toList → dt.offset = none ∧ t.offset = 0 ∨ dt.offset = some (t.offset * microsPerSecond)

private theorem not_isSeparator {c : Char} (digit : c.isDigit = true) : isSeparator c = false := by
  rw [isSeparator, isSpace_digit digit, Bool.false_or, decide_eq_false_iff_not]
  exact ne_of_isDigit digit (by decide)

/-- SQLite reads the time after one blank or `T`, when Python reads one after the same character. -/
private theorem parseHhMmSs_separated {c : Char} {others : List Char} {time clock offset : ℤ} {read : Option ℤ}
    (python : parseIsoTime others = some (time, read))
    (sql : parseHhMmSs ((c :: others).dropWhile isSeparator) = some (clock, offset)) :
    parseHhMmSs others = some (clock, offset) := by
  obtain ⟨⟨a, b, rest, rfl, first, second⟩, _⟩ := parseIsoTime_eq_some python
  rw [List.dropWhile_cons] at sql
  split at sql
  · rwa [List.dropWhile_cons, if_neg (by simp [not_isSeparator first])] at sql
  · obtain ⟨_, _, _, tail, _, readHour, _⟩ := parseHhMmSs_eq_some sql
    obtain ⟨_, _, same, _⟩ := fixed_two readHour
    cases same
    exact absurd second (by decide)

/-- Both parsers read a date alone. -/
private theorem alike_alone {text : String} {t : TimeValue} {dt : DateTime}
    (dated : parseIsoDate (text.toList.take 10) = some t.day) (recompute : t.recompute = true ↔ LateDay text)
    (wall : dt.wall = t.day * microsPerDay) (short : text.toList.drop 11 = []) (naive : dt.offset = none)
    (clock : t.clock = 0) (offset : t.offset = 0) : Alike text t dt := by
  refine ⟨dated, recompute, fun _ => ⟨clock, offset⟩, fun _ => ?_, by omega, fun _ => ?_, fun _ => .inl ⟨naive, offset⟩⟩
  · rw [wall, clock, microsPerDay]
    simp only [microsPerSecond]
    omega
  · rw [clock, HourIs24, short]
    decide

/-- Both parsers read the time after the date. -/
private theorem alike_timed {text : String} {t : TimeValue} {dt : DateTime} {others : List Char} {time offset : ℤ}
    (noNul : '\x00' ∉ text.toList) (dated : parseIsoDate (text.toList.take 10) = some t.day)
    (recompute : t.recompute = true ↔ LateDay text) (wall : dt.wall = t.day * microsPerDay + time)
    (after : text.toList.drop 11 = others) (python : parseIsoTime others = some (time, dt.offset))
    (sql : parseHhMmSs others = some (t.clock, offset)) (shift : t.offset = offset * 60) : Alike text t dt := by
  obtain ⟨hour, later, readHour, hour24, most, least, second, offsets⟩ := times_agree python sql
  refine ⟨dated, recompute, fun member => absurd member noNul, fun _ => ?_, ⟨least, most⟩, fun _ => ?_, fun _ => ?_⟩
  · have shifted : dt.wall = time + t.day * 86400 * microsPerSecond := by
      rw [wall, microsPerDay]
      ring
    rw [shifted, Int.add_mul_ediv_right _ _ (by decide), second]
    ring
  · rw [hour24, HourIs24, after, readHour, Option.any_some, decide_eq_true_eq]
  · rcases offsets with ⟨naive, rfl⟩ | some_
    · exact .inl ⟨naive, by rw [shift, zero_mul]⟩
    · exact .inr (by rw [some_, shift])

/-- Where SQLite reads a date with dashes, both parsers read alike. -/
theorem alike_of_dashed {text : String} {t : TimeValue} {dt : DateTime} (positive : text.toList.head? ≠ some '-')
    (sql : parseYyyyMmDd (cString text) = some t) (python : fromIsoFormat text = some dt) : Alike text t dt := by
  obtain ⟨cutOff, whole, free, nulFirst⟩ := cString_split text
  have positive' : (cString text).head? ≠ some '-' := by
    rw [← whole] at positive
    cases front : cString text with
    | nil => exact nofun
    | cons c others => rwa [front] at positive
  obtain ⟨year, month, day, afterYear, afterMonth, rest, readYear, readMonth, readDay, dayNumber, late, timed⟩ :=
    parseYyyyMmDd_eq_some positive' sql
  have inside : rest ⊆ cString text := by
    have month' := (List.suffix_cons '-' afterMonth).trans (fixed_suffix readMonth)
    have year' := (List.suffix_cons '-' afterYear).trans (fixed_suffix readYear)
    exact (((fixed_suffix readDay).trans month').trans year').subset
  have readYear' := fixed_append readYear cutOff
  rw [whole] at readYear'
  obtain ⟨time, dated, wall, afterMonth', timed'⟩ := fromIsoFormat_dashed readYear' (fixed_append readMonth cutOff)
    (fixed_append readDay cutOff) python
  change text.toList.drop 8 = afterMonth ++ cutOff at afterMonth'
  have recompute : t.recompute = true ↔ LateDay text := by
    rw [LateDay, afterMonth', late, fixed_append readDay cutOff, Option.any_some]
  have midnight (none_ : rest = []) : t.clock = 0 ∧ t.offset = 0 := by
    rcases timed with ⟨_, clock, offset⟩ | ⟨_, time, _⟩
    · exact ⟨clock, offset⟩
    · rw [none_] at time
      cases time
  rw [← dayNumber] at dated wall
  rcases timed' with ⟨ends, rfl, naive⟩ | ⟨c, others, more, after, timed'⟩
  · obtain ⟨rfl, rfl⟩ := List.append_eq_nil_iff.mp ends
    obtain ⟨clock, offset⟩ := midnight rfl
    obtain ⟨_, _, written, _⟩ := fixed_two (fixed_append readDay [])
    have short : text.toList.drop 11 = [] := by
      rw [show 11 = 8 + 3 from rfl, ← List.drop_drop, afterMonth', written]
      rfl
    exact alike_alone dated recompute (by rw [wall, add_zero]) short naive clock offset
  · by_cases nul : c = '\x00'
    · subst nul
      have none_ : rest = [] := by
        cases rest with
        | nil => rfl
        | cons first others' =>
          cases more
          exact absurd (inside (List.mem_cons_self ..)) free
      obtain ⟨clock, offset⟩ := midnight none_
      rw [none_, List.nil_append] at more
      have member : '\x00' ∈ text.toList := by
        rw [← whole, more]
        exact List.mem_append_right _ (List.mem_cons_self ..)
      have cut_ {P : Prop} (noNul : '\x00' ∉ text.toList) : P := absurd member noNul
      exact ⟨dated, recompute, fun _ => ⟨clock, offset⟩, cut_, by omega, cut_, cut_⟩
    · obtain ⟨⟨a, b, others', rfl, first, _⟩, known, _⟩ := parseIsoTime_eq_some timed'
      -- No NUL stands in the time, so SQLite reads the whole text.
      have all : '\x00' ∉ rest ++ cutOff := by
        rw [more]
        rintro (_ | ⟨_, member⟩)
        · exact nul rfl
        · exact ne_of_timeChar (known _ member) (by decide) rfl
      have uncut : cutOff = [] := by
        cases cutOff with
        | nil => rfl
        | cons c' others' =>
          rw [nulFirst c' others' rfl] at all
          exact absurd (List.mem_append_right _ (List.mem_cons_self ..)) all
      subst uncut
      rw [List.append_nil] at whole more
      have noNul : '\x00' ∉ text.toList := whole ▸ free
      subst more
      rcases timed with ⟨ends, _⟩ | ⟨offset, sqlTime, shift⟩
      · -- Two digits follow the separator.
        have blank : isSeparator a = true := List.dropWhile_eq_nil_iff.mp ends a (by simp)
        rw [not_isSeparator first] at blank
        cases blank
      · have sqlTime' := parseHhMmSs_separated timed' sqlTime
        exact alike_timed noNul dated recompute wall after timed' sqlTime' shift

end CliproxyUsage
