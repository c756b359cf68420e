import CliproxyUsage.Model.Instants
import CliproxyUsage.Python.IsoForms
import CliproxyUsage.Sqlite.DateForms

/-! # Both readings of a written timestamp

A stamp is a timestamp in extended form with a time, an optional fraction, and `Z` or an offset in
hours and minutes. On a stamp with an hour of the day and an offset that SQLite knows, whenever the
server reads an instant SQLite reads its whole second.
-/

namespace CliproxyUsage

open Python Digits

structure Stamp where
  year : ℕ
  month : ℕ
  day : ℕ
  hour : ℕ
  minute : ℕ
  second : ℕ
  /-- The digits of the fraction; none is written without digits. -/
  fraction : List ℕ
  /-- West of UTC or not, hours and minutes; `Z` when there is none. -/
  zone : Option (Bool × ℕ × ℕ)
  yearFits : year < 10000
  fits : month < 100 ∧ day < 100 ∧ hour < 100 ∧ minute < 100 ∧ second < 100
  zoneFits : ∀ z ∈ zone, z.2.1 < 100 ∧ z.2.2 < 100

namespace Stamp

variable (stamp : Stamp)

def dateChars : List Char := pad 4 stamp.year ++ '-' :: (pad 2 stamp.month ++ '-' :: pad 2 stamp.day)

def fractionChars : List Char := if stamp.fraction = [] then [] else '.' :: stamp.fraction.map digitChar

def clockChars : List Char :=
  pad 2 stamp.hour ++ ':' :: (pad 2 stamp.minute ++ ':' :: (pad 2 stamp.second ++ stamp.fractionChars))

def zoneChars : List Char :=
  match stamp.zone with
  | none => ['Z']
  | some (west, hours, minutes) => (if west then '-' else '+') :: (pad 2 hours ++ ':' :: pad 2 minutes)

def chars : List Char := stamp.dateChars ++ 'T' :: (stamp.clockChars ++ stamp.zoneChars)

def text : String := String.ofList stamp.chars

/-- Seconds since midnight. -/
def clock : ℤ := (stamp.hour * 3600 + stamp.minute * 60 + stamp.second : ℕ)

/-- The offset, in minutes. -/
def offset : ℤ :=
  match stamp.zone with
  | none => 0
  | some (west, hours, minutes) => if west then -(hours * 60 + minutes : ℕ) else (hours * 60 + minutes : ℕ)

/-- The offset is at most 14 hours and 59 minutes. -/
def NearZone : Prop := ∀ z ∈ stamp.zone, z.2.1 ≤ 14 ∧ z.2.2 ≤ 59

instance : Decidable stamp.NearZone := inferInstanceAs (Decidable (∀ z ∈ stamp.zone, z.2.1 ≤ 14 ∧ z.2.2 ≤ 59))

end Stamp

variable {stamp : Stamp}

section Chars

private theorem isDigit_fraction {c : Char} (member : c ∈ stamp.fraction.map digitChar) : c.isDigit = true := by
  obtain ⟨d, _, rfl⟩ := List.mem_map.mp member
  exact (digitChar_isDigit d).1

/-- The clock is written in digits, colons and a point. -/
private theorem mem_clockChars {c : Char} (member : c ∈ stamp.clockChars) : c.isDigit = true ∨ c = ':' ∨ c = '.' := by
  simp only [Stamp.clockChars, Stamp.fractionChars, List.mem_append, List.mem_cons] at member
  rcases member with hour | rfl | minute | rfl | second | fraction
  · exact .inl (isDigit_of_mem_pad hour)
  · exact .inr (.inl rfl)
  · exact .inl (isDigit_of_mem_pad minute)
  · exact .inr (.inl rfl)
  · exact .inl (isDigit_of_mem_pad second)
  · split at fraction
    · contradiction
    · rcases List.mem_cons.mp fraction with rfl | digit
      · exact .inr (.inr rfl)
      · exact .inl (isDigit_fraction digit)

private theorem zoneChars_cons : ∃ c rest, stamp.zoneChars = c :: rest ∧ isZoneStart c = true := by
  rw [Stamp.zoneChars]
  split
  · exact ⟨_, _, rfl, by decide⟩
  · next west hours minutes _ => cases west <;> exact ⟨_, _, rfl, by decide⟩

private theorem length_dateChars : stamp.dateChars.length = 10 := by
  simp [Stamp.dateChars, length_pad]

/-- The time and the offset part where the first zone character stands. -/
private theorem span_clock :
    (stamp.clockChars ++ stamp.zoneChars).takeWhile (fun c => !isZoneStart c) = stamp.clockChars ∧
      (stamp.clockChars ++ stamp.zoneChars).dropWhile (fun c => !isZoneStart c) = stamp.zoneChars := by
  have inside : ∀ c ∈ stamp.clockChars, (!isZoneStart c) = true := by
    intro c member
    rcases mem_clockChars member with digit | rfl | rfl
    · rw [not_isZoneStart digit, Bool.not_false]
    · decide
    · decide
  obtain ⟨c, rest, zone, starts⟩ := @zoneChars_cons stamp
  rw [zone, List.takeWhile_append_of_pos inside, List.dropWhile_append_of_pos inside]
  simp [starts]

end Chars

section FromIsoFormat

private theorem findSeparator_chars : findSeparator stamp.chars = 10 := by
  obtain ⟨c, rest, month, digit⟩ := pad_eq_cons 1 stamp.month
  have dash : stamp.chars[4]? = some '-' := by
    simp [Stamp.chars, Stamp.dateChars, length_pad]
  have after : stamp.chars[5]? = some c := by
    simp [Stamp.chars, Stamp.dateChars, length_pad, List.getElem?_append, month]
  have length : stamp.chars.length ≠ 7 := by
    simp only [Stamp.chars, List.length_append, length_dateChars]
    omega
  rw [findSeparator, if_neg length, if_pos dash, if_neg]
  rw [after]
  simpa using ne_of_isDigit digit (show 'W'.isDigit = false by decide)

private theorem parseIsoDate_dateChars :
    parseIsoDate stamp.dateChars = calendarDay stamp.year stamp.month stamp.day := by
  obtain ⟨c, rest, month, digit⟩ := pad_eq_cons 1 stamp.month
  have week : c ≠ 'W' := ne_of_isDigit digit (by decide)
  have read := fixed_pad (show stamp.month < 10 ^ 2 from stamp.fits.1) ('-' :: pad 2 stamp.day)
  have readDay := fixed_pad (show stamp.day < 10 ^ 2 from stamp.fits.2.1) []
  rw [List.append_nil] at readDay
  rw [parseIsoDate, Stamp.dateChars, fixed_pad (show stamp.year < 10 ^ 4 from stamp.yearFits)]
  rw [month, List.cons_append] at read ⊢
  simp only [Option.bind_eq_bind, Option.bind_some, List.head?_cons, List.tail_cons, Option.some.injEq, week,
    decide_true, ↓reduceIte, read, dropDash, readDay]

/-- The clock's fields, with the fraction in microseconds. -/
private theorem parseClock_clockChars :
    ∃ micro < 1000000, parseClock stamp.clockChars = some ⟨stamp.hour, stamp.minute, stamp.second, micro⟩ := by
  have hour := fixed_pad (show stamp.hour < 10 ^ 2 from stamp.fits.2.2.1)
    (':' :: (pad 2 stamp.minute ++ ':' :: (pad 2 stamp.second ++ stamp.fractionChars)))
  have minute := fixed_pad (show stamp.minute < 10 ^ 2 from stamp.fits.2.2.2.1)
    (':' :: (pad 2 stamp.second ++ stamp.fractionChars))
  have second := fixed_pad (show stamp.second < 10 ^ 2 from stamp.fits.2.2.2.2) stamp.fractionChars
  by_cases whole : stamp.fraction = []
  · have none_ : stamp.fractionChars = [] := if_pos whole
    refine ⟨0, by decide, ?_⟩
    rw [parseClock, Stamp.clockChars, hour]
    rw [none_, List.append_nil] at minute second ⊢
    simp [minute, second]
  · have digits : stamp.fractionChars = '.' :: stamp.fraction.map digitChar := if_neg whole
    have some_ : stamp.fraction.map digitChar ≠ [] := by simpa using whole
    obtain ⟨_, read, _⟩ := value?_digits some_ fun c => isDigit_fraction
    obtain ⟨v, kept, bound⟩ := @value?_digits ((stamp.fraction.map digitChar).take 6) (by simpa using whole)
      fun c member => isDigit_fraction (List.mem_of_mem_take member)
    have most : ((stamp.fraction.map digitChar).take 6).length ≤ 6 := by simp
    refine ⟨v * 10 ^ (6 - ((stamp.fraction.map digitChar).take 6).length), ?_, ?_⟩
    · calc v * 10 ^ (6 - ((stamp.fraction.map digitChar).take 6).length)
          < 10 ^ ((stamp.fraction.map digitChar).take 6).length *
              10 ^ (6 - ((stamp.fraction.map digitChar).take 6).length) :=
            Nat.mul_lt_mul_of_pos_right bound (by positivity)
        _ = 1000000 := by rw [← pow_add, Nat.add_sub_cancel' most]; rfl
    · rw [parseClock, Stamp.clockChars, hour]
      rw [digits] at minute second ⊢
      simp [minute, second, parseFraction, read, kept]

/-- A written time ends with its minutes. -/
private theorem parseClock_minutes {hours minutes : ℕ} (fits : hours < 100 ∧ minutes < 100) :
    parseClock (pad 2 hours ++ ':' :: pad 2 minutes) = some { hour := hours, minute := minutes } := by
  have minute := fixed_pad (show minutes < 10 ^ 2 from fits.2) []
  rw [List.append_nil] at minute
  rw [parseClock, fixed_pad (show hours < 10 ^ 2 from fits.1)]
  simp [minute]

/-- The offset of a stamp, as Python reads it. -/
private theorem parseOffset_zoneChars {read : Option ℤ} (parsed : parseOffset stamp.zoneChars = some read) :
    read = some (stamp.offset * 60 * microsPerSecond) := by
  cases zone : stamp.zone with
  | none =>
    simp only [Stamp.zoneChars, zone, parseOffset, Option.some.injEq] at parsed
    simp [Stamp.offset, zone, ← parsed]
  | some z =>
    obtain ⟨west, hours, minutes⟩ := z
    have clock := parseClock_minutes (stamp.zoneFits _ zone)
    have seconds : ClockFields.micros { hour := hours, minute := minutes } =
        ((hours * 60 + minutes : ℕ) : ℤ) * 60 * microsPerSecond := by
      simp only [ClockFields.micros]
      push_cast
      ring
    cases west with
    | false =>
      simp [Stamp.zoneChars, zone, parseOffset, clock] at parsed
      simp [Stamp.offset, zone, ← parsed.2, seconds]
    | true =>
      simp [Stamp.zoneChars, zone, parseOffset, clock] at parsed
      simp only [Stamp.offset, zone, ← parsed.2, seconds, ↓reduceIte, Option.some.injEq]
      ring

/-- What Python reads from a stamp: valid fields, and the instant that they name. -/
theorem fromIsoFormat_text {dt : DateTime} (parsed : fromIsoFormat stamp.text = some dt) :
    ∃ (day time : ℤ) (micro : ℕ), calendarDay stamp.year stamp.month stamp.day = some day ∧ micro < 1000000 ∧
      timeOfDay ⟨stamp.hour, stamp.minute, stamp.second, micro⟩ = some time ∧
      dt = ⟨day * 86400 * microsPerSecond + time, some (stamp.offset * 60 * microsPerSecond)⟩ ∧
      InRange dt.wall := by
  obtain ⟨micro, small, clock⟩ := @parseClock_clockChars stamp
  have length := @length_dateChars stamp
  have date : stamp.chars.take 10 = stamp.dateChars := List.take_left' length
  have time : stamp.chars.drop 11 = stamp.clockChars ++ stamp.zoneChars := by
    rw [Stamp.chars, show 11 = stamp.dateChars.length + 1 by rw [length], List.drop_append]
    simp
  have long : ¬stamp.chars.length < 7 ∧ ¬stamp.chars.length ≤ 10 := by
    simp only [Stamp.chars, List.length_append, List.length_cons, length]
    omega
  simp only [fromIsoFormat, Stamp.text, String.toList_ofList, if_neg long.1, if_neg long.2, findSeparator_chars, date,
    time, parseIsoDate_dateChars, parseIsoTime, span_clock.1, span_clock.2, clock, Option.bind_eq_bind,
    Option.bind_some, Option.bind_eq_some_iff, Option.some.injEq] at parsed
  obtain ⟨day, dated, _, ⟨at_, timed, _, zoned, rfl⟩, made⟩ := parsed
  split at made
  · next fits =>
    cases made
    rw [parseOffset_zoneChars zoned]
    exact ⟨day, at_, micro, dated, small, timed, rfl, fits⟩
  · contradiction

end FromIsoFormat

section DateTime

open Sqlite

private theorem field_pad {n v low high : ℕ} (fits : v < 10 ^ n) (rest : List Char) :
    field n low high (pad n v ++ rest) = if low ≤ v ∧ v ≤ high then some (v, rest) else none := by
  rw [field, fixed_pad fits]
  rfl

private theorem skipSpaces_cons {c : Char} {rest : List Char} (solid : Sqlite.isSpace c = false) :
    skipSpaces (c :: rest) = c :: rest := by
  rw [skipSpaces, List.dropWhile_cons, if_neg (by simp [solid])]

/-- The offset of a stamp, as SQLite reads it. -/
private theorem parseTimezone_zoneChars :
    parseTimezone stamp.zoneChars = if stamp.NearZone then some stamp.offset else none := by
  cases zone : stamp.zone with
  | none =>
    have near : stamp.NearZone := by
      rw [Stamp.NearZone, zone]
      exact fun z member => nomatch member
    rw [Stamp.zoneChars, zone, parseTimezone, skipSpaces_cons (by decide), if_pos near, Stamp.offset, zone]
    rfl
  | some z =>
    obtain ⟨west, hours, minutes⟩ := z
    obtain ⟨hoursFit, minutesFit⟩ := stamp.zoneFits _ zone
    have readHours := @field_pad 2 hours 0 14 hoursFit (':' :: pad 2 minutes)
    have readMinutes := @field_pad 2 minutes 0 59 minutesFit []
    rw [List.append_nil] at readMinutes
    have near : stamp.NearZone ↔ hours ≤ 14 ∧ minutes ≤ 59 := by simp [Stamp.NearZone, zone]
    have solid : Sqlite.isSpace (if west then '-' else '+') = false := by cases west <;> decide
    have letter : ¬((if west then '-' else '+') = 'Z' ∨ (if west then '-' else '+') = 'z') := by cases west <;> decide
    have minus : (if west then '-' else '+') = '-' ↔ west = true := by cases west <;> decide
    have sign : (if west then '-' else '+') = '+' ∨ west = true := by cases west <;> decide
    rw [Stamp.zoneChars, zone, parseTimezone, skipSpaces_cons solid]
    simp only [if_neg letter, readHours, near, minus, Stamp.offset, zone]
    rw [if_pos sign]
    by_cases far : hours ≤ 14
    · simp only [zero_le, far, and_self, true_and, if_true, Option.bind_eq_bind, Option.bind_some, expect, readMinutes]
      by_cases within : minutes ≤ 59
      · rw [if_pos within, if_pos within, Option.bind_some]
        exact if_pos rfl
      · simp [within]
    · simp [far]

private theorem skipFraction_zoneChars : skipFraction (stamp.fractionChars ++ stamp.zoneChars) = stamp.zoneChars := by
  obtain ⟨c, rest, zone, starts⟩ := @zoneChars_cons stamp
  have point : c ≠ '.' := by
    rintro rfl
    contradiction
  have solid : c.isDigit = false := by
    cases digit : c.isDigit with
    | false => rfl
    | true =>
      simp [isZoneStart, ne_of_isDigit digit (show '+'.isDigit = false by decide),
        ne_of_isDigit digit (show '-'.isDigit = false by decide),
        ne_of_isDigit digit (show 'Z'.isDigit = false by decide)] at starts
  rw [zone]
  by_cases whole : stamp.fraction = []
  · rw [Stamp.fractionChars, if_pos whole, List.nil_append]
    unfold skipFraction
    split
    · next same =>
      cases same
      exact absurd rfl point
    · rfl
  · rw [Stamp.fractionChars, if_neg whole]
    cases written : stamp.fraction.map digitChar with
    | nil => exact absurd (by simpa using written) whole
    | cons d ds =>
      have digits : ∀ x ∈ d :: ds, x.isDigit = true := fun x member => isDigit_fraction (written ▸ member)
      rw [List.cons_append, List.cons_append, skipFraction, if_pos (digits d (List.mem_cons_self ..)),
        List.dropWhile_append_of_pos fun x later => digits x (List.mem_cons_of_mem _ later)]
      simp [solid]

/-- The fields that SQLite accepts. -/
def Stamp.Accepted (stamp : Stamp) : Prop :=
  (1 ≤ stamp.month ∧ stamp.month ≤ 12) ∧ (1 ≤ stamp.day ∧ stamp.day ≤ 31) ∧ stamp.hour ≤ 24 ∧ stamp.minute ≤ 59 ∧
    stamp.second ≤ 59 ∧ stamp.NearZone

instance : Decidable stamp.Accepted := inferInstanceAs (Decidable (_ ∧ _))

/-- What SQLite reads from a stamp whose fields it accepts. -/
def Stamp.value (stamp : Stamp) : TimeValue :=
  ⟨Gregorian.dayNumber stamp.year stamp.month stamp.day, stamp.clock, stamp.offset * 60, stamp.day > 28⟩

private theorem parseHhMmSs_chars :
    parseHhMmSs (stamp.clockChars ++ stamp.zoneChars) =
      if stamp.hour ≤ 24 ∧ stamp.minute ≤ 59 ∧ stamp.second ≤ 59 ∧ stamp.NearZone then
        some (stamp.clock, stamp.offset)
      else none := by
  have hour := @field_pad 2 stamp.hour 0 24 stamp.fits.2.2.1
    (':' :: (pad 2 stamp.minute ++ ':' :: (pad 2 stamp.second ++ (stamp.fractionChars ++ stamp.zoneChars))))
  have minute := @field_pad 2 stamp.minute 0 59 stamp.fits.2.2.2.1
    (':' :: (pad 2 stamp.second ++ (stamp.fractionChars ++ stamp.zoneChars)))
  have second := @field_pad 2 stamp.second 0 59 stamp.fits.2.2.2.2 (stamp.fractionChars ++ stamp.zoneChars)
  have written : stamp.clockChars ++ stamp.zoneChars = pad 2 stamp.hour ++ ':' :: (pad 2 stamp.minute ++ ':' ::
      (pad 2 stamp.second ++ (stamp.fractionChars ++ stamp.zoneChars))) := by
    simp [Stamp.clockChars]
  rw [written, parseHhMmSs, hour]
  by_cases hours : stamp.hour ≤ 24
  · by_cases minutes : stamp.minute ≤ 59
    · by_cases seconds : stamp.second ≤ 59
      · by_cases zone : stamp.NearZone
        · simp [hours, minutes, seconds, zone, expect, minute, second, skipFraction_zoneChars, parseTimezone_zoneChars,
            Stamp.clock]
        · simp [hours, minutes, seconds, zone, expect, minute, second, skipFraction_zoneChars, parseTimezone_zoneChars]
      · simp [hours, minutes, seconds, expect, minute, second]
    · simp [hours, minutes, expect, minute]
  · simp [hours]

private theorem parseYyyyMmDd_chars :
    parseYyyyMmDd stamp.chars = if stamp.Accepted then some stamp.value else none := by
  obtain ⟨first, others, year, yearDigit⟩ := pad_eq_cons 3 stamp.year
  obtain ⟨c, rest, hour, digit⟩ := pad_eq_cons 1 stamp.hour
  have readYear := @field_pad 4 stamp.year 0 9999 stamp.yearFits ('-' :: (pad 2 stamp.month ++ '-' ::
    (pad 2 stamp.day ++ 'T' :: (stamp.clockChars ++ stamp.zoneChars))))
  have readMonth := @field_pad 2 stamp.month 1 12 stamp.fits.1
    ('-' :: (pad 2 stamp.day ++ 'T' :: (stamp.clockChars ++ stamp.zoneChars)))
  have readDay := @field_pad 2 stamp.day 1 31 stamp.fits.2.1 ('T' :: (stamp.clockChars ++ stamp.zoneChars))
  have written : stamp.chars = pad 4 stamp.year ++ '-' :: (pad 2 stamp.month ++ '-' ::
      (pad 2 stamp.day ++ 'T' :: (stamp.clockChars ++ stamp.zoneChars))) := by
    simp [Stamp.chars, Stamp.dateChars]
  have years : stamp.year ≤ 9999 := by
    have fits := stamp.yearFits
    omega
  have positive : parseSign stamp.chars = (false, stamp.chars) := by
    rw [written, year, List.cons_append]
    unfold parseSign
    split
    · next same =>
      cases same
      contradiction
    · rfl
  -- The separator is dropped up to the first digit of the hour.
  obtain ⟨body, clock⟩ : ∃ body, stamp.clockChars ++ stamp.zoneChars = c :: body := by
    rw [Stamp.clockChars, hour]
    exact ⟨_, rfl⟩
  have separator : ('T' :: (stamp.clockChars ++ stamp.zoneChars)).dropWhile (fun c => Sqlite.isSpace c || c = 'T') =
      stamp.clockChars ++ stamp.zoneChars := by
    rw [clock]
    simp [isSpace_digit digit, ne_of_isDigit digit (show 'T'.isDigit = false by decide)]
  simp only [parseYyyyMmDd, positive]
  rw [written, readYear]
  by_cases month : 1 ≤ stamp.month ∧ stamp.month ≤ 12
  · by_cases day : 1 ≤ stamp.day ∧ stamp.day ≤ 31
    · simp only [Option.bind_eq_bind, zero_le, years, ↓reduceIte, Option.bind_some, expect, readMonth, month,
        readDay, day, and_self, separator]
      rw [clock]
      simp only
      rw [← clock, parseHhMmSs_chars]
      by_cases time : stamp.hour ≤ 24 ∧ stamp.minute ≤ 59 ∧ stamp.second ≤ 59 ∧ stamp.NearZone
      · rw [if_pos time, if_pos (show stamp.Accepted from ⟨month, day, time⟩)]
        rfl
      · rw [if_neg time, if_neg fun accepted : stamp.Accepted => time accepted.2.2]
        rfl
    · simp [years, expect, readMonth, month, readDay, day, Stamp.Accepted]
  · simp [years, expect, readMonth, month, Stamp.Accepted]

private theorem cString_text : cString stamp.text = stamp.chars := by
  have digits : ∀ {c : Char}, c.isDigit = true → c ≠ '\x00' := fun digit => ne_of_isDigit digit (by decide)
  have date : ∀ c ∈ stamp.dateChars, c ≠ '\x00' := by
    intro c member
    simp only [Stamp.dateChars, List.mem_append, List.mem_cons] at member
    rcases member with year | rfl | month | rfl | day
    · exact digits (isDigit_of_mem_pad year)
    · decide
    · exact digits (isDigit_of_mem_pad month)
    · decide
    · exact digits (isDigit_of_mem_pad day)
  have clock : ∀ c ∈ stamp.clockChars, c ≠ '\x00' := by
    intro c member
    rcases mem_clockChars member with digit | rfl | rfl
    · exact digits digit
    · decide
    · decide
  have zone : ∀ c ∈ stamp.zoneChars, c ≠ '\x00' := by
    intro c member
    rw [Stamp.zoneChars] at member
    split at member
    · rw [List.mem_singleton.mp member]
      decide
    · next west hours minutes _ =>
      simp only [List.mem_cons, List.mem_append] at member
      rcases member with rfl | hour | rfl | minute
      · cases west <;> decide
      · exact digits (isDigit_of_mem_pad hour)
      · decide
      · exact digits (isDigit_of_mem_pad minute)
  rw [cString, Stamp.text, String.toList_ofList, List.takeWhile_eq_self_iff]
  intro c member
  rw [decide_eq_true_eq]
  simp only [Stamp.chars, List.mem_append, List.mem_cons] at member
  rcases member with inDate | rfl | inClock | inZone
  · exact date c inDate
  · decide
  · exact clock c inClock
  · exact zone c inZone

/-- A stamp whose date SQLite rejects is no time alone. -/
private theorem parseHhMmSs_stamp : parseHhMmSs stamp.chars = none := by
  obtain ⟨a, b, c, d, year, digits⟩ : ∃ a b c d, pad 4 stamp.year = [a, b, c, d] ∧ c.isDigit = true := by
    refine ⟨_, _, _, _, rfl, ?_⟩
    exact (digitChar_isDigit _).1
  rw [Stamp.chars, Stamp.dateChars, year]
  exact parseHhMmSs_digit digits _

/-- The time of a stamp with an hour of the day is within its day. -/
theorem clock_of_timeValue {v : TimeValue} (early : stamp.hour ≤ 23) (read : timeValue stamp.text = some v) :
    0 ≤ v.clock ∧ v.clock < 86400 := by
  simp only [timeValue, cString_text, parseYyyyMmDd_chars, parseHhMmSs_stamp, Option.filter_eq_some_iff] at read
  by_cases accepted : stamp.Accepted
  · rw [if_pos accepted] at read
    obtain ⟨_, _, _, minute, second, _⟩ := accepted
    cases read.1
    simp only [Stamp.value, Stamp.clock]
    omega
  · rw [if_neg accepted] at read
    obtain ⟨number, _, day⟩ := Option.bind_eq_some_iff.mp read.1
    rw [ofJulianDay] at day
    split at day
    · cases day
      simp only
      omega
    · contradiction

theorem timeValue_of_accepted (accepted : stamp.Accepted) (valid : stamp.value.Valid) :
    timeValue stamp.text = some stamp.value := by
  simp [timeValue, cString_text, parseYyyyMmDd_chars, if_pos accepted, valid]

/-- Within its day, a time is printed as its instant. -/
theorem datetime_early {v : TimeValue} (early : stamp.hour ≤ 23) (read : timeValue stamp.text = some v) :
    datetime stamp.text = some (toLex (v.seconds / 86400, v.seconds % 86400)) := by
  obtain ⟨start, finish⟩ := clock_of_timeValue early read
  rw [datetime, read, Option.map_some, TimeValue.printed]
  split
  · rfl
  · next utc =>
    rw [not_not] at utc
    split
    · rfl
    · have seconds : v.seconds = v.day * 86400 + v.clock := by rw [TimeValue.seconds, utc, sub_zero]
      have day : v.seconds / 86400 = v.day := by omega
      have clock : v.seconds % 86400 = v.clock := by omega
      rw [day, clock]

/-- The instant that the server reads from such a stamp is one whose second SQLite reads. -/
theorem timeValue_of_parseTs {host : Host} {t : ℤ} (early : stamp.hour ≤ 23) (near : stamp.NearZone)
    (parsed : parseTs host stamp.text = .ok t) : ∃ v, timeValue stamp.text = some v ∧ v.seconds = t / 1000000 := by
  rw [parseTs] at parsed
  cases read : fromIsoFormat stamp.text with
  | none => simp [read] at parsed
  | some dt =>
    obtain ⟨day, time, micro, dated, small, timed, rfl, _⟩ := fromIsoFormat_text read
    simp only [read] at parsed
    split at parsed
    · next range =>
      cases parsed
      rw [calendarDay] at dated
      split at dated
      · next date =>
        obtain ⟨_, _, month, month', first, last⟩ := date
        have longest := Gregorian.daysInMonth_le stamp.year stamp.month
        cases dated
        rw [timeOfDay] at timed
        split at timed
        · next clock =>
          cases timed
          simp only at clock
          have fields : stamp.minute ≤ 59 ∧ stamp.second ≤ 59 := by omega
          have accepted : stamp.Accepted :=
            ⟨⟨month, month'⟩, ⟨first, by omega⟩, by omega, fields.1, fields.2, near⟩
          have seconds : stamp.value.seconds =
              (Gregorian.dayNumber stamp.year stamp.month stamp.day * 86400 * microsPerSecond +
                ClockFields.micros ⟨stamp.hour, stamp.minute, stamp.second, micro⟩ -
                  stamp.offset * 60 * microsPerSecond) / 1000000 := by
            simp only [TimeValue.seconds, Stamp.value, Stamp.clock, ClockFields.micros, microsPerSecond]
            omega
          refine ⟨stamp.value, timeValue_of_accepted accepted ?_, seconds⟩
          obtain ⟨least, most⟩ := range
          rw [TimeValue.Valid, seconds, julianEpoch]
          simp only [minWall, maxWall] at least most
          simp only [microsPerSecond] at least most ⊢
          omega
        · cases timed
      · cases dated
    · cases parsed

end DateTime

end CliproxyUsage
