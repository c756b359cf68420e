import CliproxyUsage.Frontend.WindowQuery
import CliproxyUsage.Python.IsoFormat

/-! # The texts of time values

`datetime.fromisoformat` reads what `toISOString` prints, in the years that a `datetime` has.
-/

namespace CliproxyUsage.Frontend

open JavaScript Python Gregorian

/-- A date in extended form. -/
private def dateChars (year month day : ℕ) : List Char :=
  Digits.pad 4 year ++ '-' :: Digits.pad 2 month ++ '-' :: Digits.pad 2 day

/-- A time with milliseconds. -/
private def timeChars (hour minute second milli : ℕ) : List Char :=
  Digits.pad 2 hour ++ ':' :: Digits.pad 2 minute ++ ':' :: Digits.pad 2 second ++ '.' :: Digits.pad 3 milli

private theorem fixed_pad_nil {n v : ℕ} (bound : v < 10 ^ n) : Digits.fixed n (Digits.pad n v) = some (v, []) := by
  have read := Digits.fixed_pad bound []
  rwa [List.append_nil] at read

/-- The digits after the first dash are not those of a week date. -/
private theorem head_pad (n v : ℕ) (rest : List Char) : (Digits.pad (n + 1) v ++ rest).head? ≠ some 'W' := by
  obtain ⟨c, digits, written, digit⟩ := Digits.pad_eq_cons n v
  rw [written, List.cons_append, List.head?_cons]
  intro week
  rw [Option.some.inj week] at digit
  exact absurd digit (by decide)

private theorem findSeparator_date (year month day : ℕ) (rest : List Char) :
    findSeparator (dateChars year month day ++ rest) = 10 := by
  have long : (dateChars year month day ++ rest).length ≠ 7 := by
    simp only [dateChars, List.length_append, List.length_cons, Digits.length_pad]
    omega
  have dash : (dateChars year month day ++ rest)[4]? = some '-' := by
    simp [dateChars, Digits.length_pad]
  have noWeek : (dateChars year month day ++ rest)[5]? ≠ some 'W' := by
    have head := head_pad 1 month ('-' :: Digits.pad 2 day ++ rest)
    rw [List.head?_eq_getElem?] at head
    simpa [dateChars, List.getElem?_append, Digits.length_pad] using head
  rw [findSeparator, if_neg long, if_pos dash, if_neg noWeek]

private theorem parseIsoDate_date {year month day : ℕ} (years : year < 10 ^ 4) (months : month < 10 ^ 2)
    (days : day < 10 ^ 2) : parseIsoDate (dateChars year month day) = calendarDay year month day := by
  have noWeek := head_pad 1 month ('-' :: Digits.pad 2 day)
  simp only [parseIsoDate, dateChars, List.append_assoc, List.cons_append, Digits.fixed_pad years,
    Digits.fixed_pad months, fixed_pad_nil days, Option.bind_eq_bind, Option.bind_some, List.head?_cons, List.tail_cons,
    decide_true, if_true, if_neg noWeek, dropDash]

private theorem parseFraction_milli {milli : ℕ} (bound : milli < 10 ^ 3) :
    parseFraction (Digits.pad 3 milli) = some (milli * 1000) := by
  have kept : (Digits.pad 3 milli).take 6 = Digits.pad 3 milli :=
    List.take_of_length_le (by rw [Digits.length_pad]; decide)
  simp only [parseFraction, kept, Digits.value?_pad (by decide) bound, Digits.length_pad, Option.bind_eq_bind,
    Option.bind_some]
  rfl

private theorem parseClock_time {hour minute second milli : ℕ} (hours : hour < 10 ^ 2) (minutes : minute < 10 ^ 2)
    (seconds : second < 10 ^ 2) (millis : milli < 10 ^ 3) :
    parseClock (timeChars hour minute second milli) = some ⟨hour, minute, second, milli * 1000⟩ := by
  simp only [parseClock, timeChars, List.append_assoc, List.cons_append, Digits.fixed_pad hours,
    Digits.fixed_pad minutes, Digits.fixed_pad seconds, parseFraction_milli millis, Option.bind_eq_bind,
    Option.bind_some, List.head?_cons, List.tail_cons, if_true, reduceCtorEq, if_false, ne_eq,
    not_true_eq_false, and_false]
  rfl

private theorem timeChars_noZone {hour minute second milli : ℕ} :
    ∀ c ∈ timeChars hour minute second milli, (!isZoneStart c) = true := by
  have digit {n v : ℕ} {c : Char} (member : c ∈ Digits.pad n v) : (!isZoneStart c) = true := by
    have is := Digits.isDigit_of_mem_pad member
    rw [isZoneStart, Bool.not_eq_true', decide_eq_false_iff_not]
    rintro (rfl | rfl | rfl) <;> exact absurd is (by decide)
  intro c member
  simp only [timeChars, List.mem_append, List.mem_cons] at member
  rcases member with ((inHour | rfl | inMinute) | rfl | inSecond) | rfl | inMilli
  · exact digit inHour
  · rfl
  · exact digit inMinute
  · rfl
  · exact digit inSecond
  · rfl
  · exact digit inMilli

/-- Instants of the years 1 to 9999 print their year in four digits. -/
private theorem year_of_inRange {time : ℤ} (inRange : InRange (time * 1000)) :
    1 ≤ yearOf (time / msPerDay) ∧ yearOf (time / msPerDay) ≤ 9999 := by
  rw [InRange, minWall, maxWall, microsPerSecond] at inRange
  have first : yearOf (-719162) = 1 := by decide
  have last : yearOf 2932896 = 9999 := by decide
  rw [← first, ← last]
  constructor
  · apply yearOf_mono
    rw [msPerDay]
    omega
  · apply yearOf_mono
    rw [msPerDay]
    omega

/-- The instant is read back to the millisecond. -/
theorem fromIsoFormat_isoText {time : ℤ} (inRange : InRange (time * 1000)) :
    fromIsoFormat (isoText time) = some ⟨time * 1000, some 0⟩ := by
  obtain ⟨early, late⟩ := year_of_inRange inRange
  obtain ⟨first, last, firstDay, lastDay⟩ := fields_bounds (time / msPerDay)
  have length := daysInMonth_le (yearOf (time / msPerDay)) (monthOf (time / msPerDay))
  have dated := dayNumber_fields (time / msPerDay)
  obtain ⟨number, sameNumber⟩ : ∃ number, time / msPerDay = number := ⟨_, rfl⟩
  rw [sameNumber] at early late first last firstDay lastDay length dated
  obtain ⟨year, sameYear⟩ := Int.eq_ofNat_of_zero_le (show 0 ≤ yearOf number by omega)
  obtain ⟨day, sameDay⟩ := Int.eq_ofNat_of_zero_le (show 0 ≤ dayOfMonth number by omega)
  obtain ⟨ms, sameMs⟩ := Int.eq_ofNat_of_zero_le (show 0 ≤ time % msPerDay by rw [msPerDay]; omega)
  obtain ⟨month, sameMonth⟩ : ∃ month, monthOf number = month := ⟨_, rfl⟩
  rw [sameMonth] at first last lastDay length dated
  rw [sameYear] at early late lastDay length dated
  rw [sameDay] at firstDay lastDay dated
  have written : (isoText time).toList = dateChars year month day ++
      'T' :: (timeChars (ms / 3600000) (ms / 60000 % 60) (ms / 1000 % 60) (ms % 1000) ++ ['Z']) := by
    have fourDigits : isoYear year = Digits.pad 4 year := by
      rw [isoYear, if_pos ⟨by omega, late⟩, Int.toNat_natCast]
    rw [isoText]
    simp only [String.toList_ofList, sameNumber, sameYear, sameMonth, fourDigits, sameDay, sameMs, Int.toNat_natCast,
      dateChars, timeChars, List.append_assoc, List.cons_append]
  have under : ms < 86400000 := by
    rw [msPerDay] at sameMs
    omega
  have calendar : calendarDay year month day = some number := by
    rw [calendarDay, if_pos (by omega), ← dated, dayNumber, dayNumber]
    push_cast
    ring_nf
  have timed : parseIsoTime (timeChars (ms / 3600000) (ms / 60000 % 60) (ms / 1000 % 60) (ms % 1000) ++ ['Z']) =
      some ((ms : ℤ) * 1000, some 0) := by
    have clock := @parseClock_time (ms / 3600000) (ms / 60000 % 60) (ms / 1000 % 60) (ms % 1000) (by omega) (by omega)
      (by omega) (by omega)
    rw [parseIsoTime, List.takeWhile_append_of_pos timeChars_noZone, List.dropWhile_append_of_pos timeChars_noZone]
    have ends : (['Z'].takeWhile fun c => !isZoneStart c) = [] ∧ (['Z'].dropWhile fun c => !isZoneStart c) = ['Z'] := by
      decide
    simp only [ends, List.append_nil, clock, timeOfDay, parseOffset, Option.bind_eq_bind, Option.bind_some]
    rw [if_pos (by omega)]
    simp only [Option.bind_some, ClockFields.micros, microsPerSecond]
    refine congrArg some (Prod.ext ?_ rfl)
    dsimp only
    push_cast
    omega
  have split : (dateChars year month day).length = 10 := by
    simp [dateChars, Digits.length_pad]
  have after (rest : List Char) : (dateChars year month day ++ 'T' :: rest).drop (10 + 1) = rest := by
    rw [List.drop_append, split, List.drop_of_length_le (by omega)]
    rfl
  have long (rest : List Char) : ¬(dateChars year month day ++ 'T' :: rest).length < 7 ∧
      ¬(dateChars year month day ++ 'T' :: rest).length ≤ 10 := by
    rw [List.length_append, split, List.length_cons]
    omega
  have wall : number * 86400 * microsPerSecond + (ms : ℤ) * 1000 = time * 1000 := by
    rw [microsPerSecond]
    rw [msPerDay] at sameMs sameNumber
    omega
  simp only [fromIsoFormat, written, findSeparator_date, List.take_left' split, parseIsoDate_date
    (show year < 10 ^ 4 by omega) (show month < 10 ^ 2 by omega) (show day < 10 ^ 2 by omega), calendar, after, timed,
    long, if_false, Option.bind_eq_bind, Option.bind_some, wall, inRange, if_true]

end CliproxyUsage.Frontend
