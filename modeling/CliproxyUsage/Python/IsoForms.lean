import CliproxyUsage.Python.IsoFormat
import CliproxyUsage.Python.ZoneInfo

/-! # What `fromisoformat` accepts

The form of an accepted text, from the parts of a time to the whole: which characters stand where, and
the value that they spell.
-/

namespace Python

open Digits

/-- The characters of a time without its offset. -/
def IsClockChar (c : Char) : Prop := c.isDigit = true ∨ c = ':' ∨ c = '.' ∨ c = ','

instance (c : Char) : Decidable (IsClockChar c) := inferInstanceAs (Decidable (_ ∨ _))

theorem ne_of_timeChar {c d : Char} (known : IsClockChar c ∨ isZoneStart c = true)
    (other : ¬(IsClockChar d ∨ isZoneStart d = true)) : c ≠ d := by
  rintro rfl
  exact other known

theorem not_isZoneStart {c : Char} (digit : c.isDigit = true) : isZoneStart c = false := by
  simp [isZoneStart, ne_of_isDigit digit (show '+'.isDigit = false by decide),
    ne_of_isDigit digit (show '-'.isDigit = false by decide), ne_of_isDigit digit (show 'Z'.isDigit = false by decide)]

theorem parseFraction_eq_some {chars : List Char} {micro : ℕ} (parsed : parseFraction chars = some micro) :
    chars ≠ [] ∧ (∀ c ∈ chars, c.isDigit = true) ∧ micro < 1000000 := by
  simp only [parseFraction, Option.bind_eq_bind, Option.bind_eq_some_iff, Option.some.injEq] at parsed
  obtain ⟨_, whole, v, kept, rfl⟩ := parsed
  obtain ⟨some_, digits, _⟩ := value?_eq_some whole
  obtain ⟨_, _, bound⟩ := value?_eq_some kept
  have most : (chars.take 6).length ≤ 6 := by simp
  refine ⟨some_, digits, ?_⟩
  calc v * 10 ^ (6 - (chars.take 6).length) < 10 ^ (chars.take 6).length * 10 ^ (6 - (chars.take 6).length) :=
        Nat.mul_lt_mul_of_pos_right bound (by positivity)
    _ = 1000000 := by rw [← pow_add, Nat.add_sub_cancel' most]; rfl

private theorem isClockChar_append {digits rest : List Char} (all : ∀ c ∈ digits, c.isDigit = true)
    (others : ∀ c ∈ rest, IsClockChar c) : ∀ c ∈ digits ++ rest, IsClockChar c := by
  intro c member
  rcases List.mem_append.mp member with digit | other
  · exact .inl (all c digit)
  · exact others c other

private theorem isClockChar_colon {extended : Prop} [Decidable extended] {rest : List Char}
    (colon : extended → rest.head? = some ':')
    (others : ∀ c ∈ if extended then rest.tail else rest, IsClockChar c) : ∀ c ∈ rest, IsClockChar c := by
  split at others
  · next holds =>
    obtain ⟨tail, rfl⟩ := List.head?_eq_some_iff.mp (colon holds)
    exact List.forall_mem_cons.mpr ⟨.inr (.inl rfl), others⟩
  · exact others

/-- A clock starts with two digits, and has nothing but digits, colons and a decimal mark. -/
theorem parseClock_eq_some {chars : List Char} {clock : ClockFields} (parsed : parseClock chars = some clock) :
    (∃ a b rest, chars = a :: b :: rest ∧ a.isDigit = true ∧ b.isDigit = true) ∧ (∀ c ∈ chars, IsClockChar c) ∧
      clock.micro < 1000000 := by
  have whole : 0 < 1000000 := by decide
  simp only [parseClock, Option.bind_eq_bind, Option.bind_eq_some_iff] at parsed
  obtain ⟨⟨hour, rest⟩, readHour, parsed⟩ := parsed
  obtain ⟨a, b, rfl, first, second, _⟩ := fixed_two readHour
  refine ⟨⟨a, b, rest, rfl, first, second⟩, ?_⟩
  suffices (∀ c ∈ rest, IsClockChar c) ∧ clock.micro < 1000000 from
    ⟨List.forall_mem_cons.mpr ⟨.inl first, List.forall_mem_cons.mpr ⟨.inl second, this.1⟩⟩, this.2⟩
  dsimp only at parsed
  split at parsed
  · next ends =>
    cases parsed
    rw [ends]
    exact ⟨List.forall_mem_nil _, whole⟩
  · obtain ⟨⟨minute, rest'⟩, readMinute, parsed⟩ := Option.bind_eq_some_iff.mp parsed
    obtain ⟨digits, written, _, all, _⟩ := fixed_eq_some readMinute
    suffices (∀ c ∈ rest', IsClockChar c) ∧ clock.micro < 1000000 from
      ⟨isClockChar_colon id (written ▸ isClockChar_append all this.1), this.2⟩
    dsimp only at parsed
    split at parsed
    · next ends =>
      cases parsed
      rw [ends]
      exact ⟨List.forall_mem_nil _, whole⟩
    · split at parsed
      · cases parsed
      · next colons =>
        obtain ⟨⟨second, rest''⟩, readSecond, parsed⟩ := Option.bind_eq_some_iff.mp parsed
        obtain ⟨digits', written', _, all', _⟩ := fixed_eq_some readSecond
        suffices (∀ c ∈ rest'', IsClockChar c) ∧ clock.micro < 1000000 by
          refine ⟨isClockChar_colon (fun extended => ?_) (written' ▸ isClockChar_append all' this.1), this.2⟩
          by_contra other
          exact colons ⟨extended, other⟩
        dsimp only at parsed
        split at parsed
        · cases parsed
          exact ⟨List.forall_mem_nil _, whole⟩
        · obtain ⟨micro, fraction, same⟩ := Option.bind_eq_some_iff.mp parsed
          obtain ⟨_, digits, bound⟩ := parseFraction_eq_some fraction
          cases same
          exact ⟨List.forall_mem_cons.mpr ⟨.inr (.inr (.inl rfl)), fun c member => .inl (digits c member)⟩, bound⟩
        · obtain ⟨micro, fraction, same⟩ := Option.bind_eq_some_iff.mp parsed
          obtain ⟨_, digits, bound⟩ := parseFraction_eq_some fraction
          cases same
          exact ⟨List.forall_mem_cons.mpr ⟨.inr (.inr (.inr rfl)), fun c member => .inl (digits c member)⟩, bound⟩
        · cases parsed

/-- A clock with a colon after its hour ends with its minutes, its seconds, or a fraction. -/
theorem parseClock_extended {chars tail rest : List Char} {hour minute : ℕ} {clock : ClockFields}
    (readHour : fixed 2 chars = some (hour, ':' :: tail)) (readMinute : fixed 2 tail = some (minute, rest))
    (parsed : parseClock chars = some clock) :
    (rest = [] ∧ clock = { hour, minute }) ∨ ∃ tail' second rest', rest = ':' :: tail' ∧
      fixed 2 tail' = some (second, rest') ∧ ((rest' = [] ∧ clock = { hour, minute, second }) ∨
        ∃ mark fraction micro, rest' = mark :: fraction ∧ (mark = '.' ∨ mark = ',') ∧
          parseFraction fraction = some micro ∧ clock = ⟨hour, minute, second, micro⟩) := by
  simp only [parseClock, readHour, Option.bind_eq_bind, Option.bind_some, List.head?_cons, List.tail_cons, if_true,
    readMinute, reduceCtorEq, if_false, true_and] at parsed
  split at parsed
  · next ends =>
    cases parsed
    exact .inl ⟨ends, rfl⟩
  · split at parsed
    · cases parsed
    · next colon =>
      obtain ⟨tail', rfl⟩ := List.head?_eq_some_iff.mp (not_not.mp colon)
      obtain ⟨⟨second, rest'⟩, readSecond, parsed⟩ := Option.bind_eq_some_iff.mp parsed
      refine .inr ⟨tail', second, rest', rfl, readSecond, ?_⟩
      dsimp only at parsed
      split at parsed
      · cases parsed
        exact .inl ⟨rfl, rfl⟩
      · next fraction =>
        obtain ⟨micro, read, same⟩ := Option.bind_eq_some_iff.mp parsed
        cases same
        exact .inr ⟨'.', fraction, micro, rfl, .inl rfl, read, rfl⟩
      · next fraction =>
        obtain ⟨micro, read, same⟩ := Option.bind_eq_some_iff.mp parsed
        cases same
        exact .inr ⟨',', fraction, micro, rfl, .inr rfl, read, rfl⟩
      · cases parsed

theorem parseOffset_signed {sign : Char} {fields : List Char} {read : Option ℤ} (signed : sign ≠ 'Z')
    (parsed : parseOffset (sign :: fields) = some read) :
    ∃ clock, parseClock fields = some clock ∧ clock.hour ≤ 23 ∧ clock.minute ≤ 59 ∧ clock.second ≤ 59 ∧
      read = some (if sign = '-' then -clock.micros else clock.micros) := by
  unfold parseOffset at parsed
  split at parsed
  · next none_ => cases none_
  · next letter =>
    cases letter
    exact absurd rfl signed
  · next same =>
    cases same
    simp only [if_neg signed, Option.bind_eq_bind, Option.bind_eq_some_iff] at parsed
    obtain ⟨clock, front, parsed⟩ := parsed
    split at parsed
    · next fits =>
      cases parsed
      exact ⟨clock, front, fits.1, fits.2.1, fits.2.2, rfl⟩
    · cases parsed

/-- `Z` stands alone. -/
theorem parseOffset_letter {fields : List Char} {read : Option ℤ} (parsed : parseOffset ('Z' :: fields) = some read) :
    fields = [] ∧ read = some 0 := by
  cases fields with
  | nil =>
    cases parsed
    exact ⟨rfl, rfl⟩
  | cons other rest => cases parsed

/-- An offset has the characters of a clock after its first one, and is less than a day. -/
theorem parseOffset_eq_some {chars : List Char} {read : Option ℤ} (parsed : parseOffset chars = some read) :
    (∀ c ∈ chars.tail, IsClockChar c) ∧ ∀ offset, read = some offset → |offset| < microsPerDay := by
  cases chars with
  | nil =>
    cases parsed
    exact ⟨List.forall_mem_nil _, nofun⟩
  | cons sign fields =>
    by_cases letter : sign = 'Z'
    · subst letter
      obtain ⟨rfl, rfl⟩ := parseOffset_letter parsed
      refine ⟨List.forall_mem_nil _, ?_⟩
      rintro _ ⟨rfl⟩
      decide
    · obtain ⟨clock, front, hour, minute, second, rfl⟩ := parseOffset_signed letter parsed
      obtain ⟨_, clockChars, small⟩ := parseClock_eq_some front
      refine ⟨clockChars, ?_⟩
      rintro _ ⟨rfl⟩
      have bound : |clock.micros| < microsPerDay := by
        rw [abs_lt, ClockFields.micros, microsPerDay, microsPerSecond]
        omega
      split
      · rwa [abs_neg]
      · exact bound

theorem timeOfDay_eq_some {clock : ClockFields} {time : ℤ} (timed : timeOfDay clock = some time)
    (small : clock.micro < 1000000) : time = clock.micros ∧ clock.minute ≤ 59 ∧ clock.second ≤ 59 ∧
      (clock.hour ≤ 23 ∨ clock.hour = 24 ∧ clock.minute = 0 ∧ clock.second = 0 ∧ clock.micro = 0) := by
  rw [timeOfDay] at timed
  split at timed
  · cases timed
    refine ⟨rfl, ?_⟩
    omega
  · cases timed

/-- The first character of an offset. -/
theorem zone_starts {chars : List Char} : ∀ c rest, (chars.dropWhile fun c => !isZoneStart c) = c :: rest →
    isZoneStart c = true := by
  intro c rest zone
  have starts := List.head_dropWhile_not (fun c => !isZoneStart c) (l := chars) (by simp [zone])
  simpa only [zone, List.head_cons, Bool.not_eq_false'] using starts

/-- A time starts with two digits, and has the characters of clocks, signs and `Z`. -/
theorem parseIsoTime_eq_some {chars : List Char} {time : ℤ} {read : Option ℤ}
    (parsed : parseIsoTime chars = some (time, read)) :
    (∃ a b rest, chars = a :: b :: rest ∧ a.isDigit = true ∧ b.isDigit = true) ∧
      (∀ c ∈ chars, IsClockChar c ∨ isZoneStart c = true) ∧ 0 ≤ time ∧ time ≤ microsPerDay ∧
      ∀ offset, read = some offset → |offset| < microsPerDay := by
  simp only [parseIsoTime, Option.bind_eq_bind, Option.bind_eq_some_iff, Option.some.injEq, Prod.mk.injEq] at parsed
  obtain ⟨clock, front, at_, timed, zone, back, rfl, rfl⟩ := parsed
  obtain ⟨⟨a, b, rest, written, first, second⟩, clockChars, small⟩ := parseClock_eq_some front
  obtain ⟨zoneChars, near⟩ := parseOffset_eq_some back
  obtain ⟨rfl, fields⟩ := timeOfDay_eq_some timed small
  have whole := List.takeWhile_append_dropWhile (p := fun c => !isZoneStart c) (l := chars)
  refine ⟨⟨a, b, rest ++ chars.dropWhile fun c => !isZoneStart c, ?_, first, second⟩, ?_, ?_, ?_, near⟩
  · rw [← List.cons_append, ← List.cons_append, ← written, whole]
  · intro c member
    rw [← whole] at member
    rcases List.mem_append.mp member with inClock | inZone
    · exact .inl (clockChars c inClock)
    · cases zone_ : chars.dropWhile fun c => !isZoneStart c with
      | nil =>
        rw [zone_] at inZone
        exact absurd inZone List.not_mem_nil
      | cons sign fields =>
        rw [zone_] at inZone zoneChars
        rcases List.mem_cons.mp inZone with rfl | later
        · exact .inr (zone_starts _ _ zone_)
        · exact .inl (zoneChars c later)
  · rw [ClockFields.micros, microsPerSecond]
    omega
  · rw [ClockFields.micros, microsPerDay, microsPerSecond]
    omega

/-- A date, and a time after the separator when there is more of the text. -/
theorem fromIsoFormat_eq_some {text : String} {dt : DateTime} (parsed : fromIsoFormat text = some dt) :
    7 ≤ text.toList.length ∧ ∃ day time, parseIsoDate (text.toList.take (findSeparator text.toList)) = some day ∧
      dt.wall = day * microsPerDay + time ∧
      ((text.toList.length ≤ findSeparator text.toList ∧ time = 0 ∧ dt.offset = none) ∨
        findSeparator text.toList < text.toList.length ∧
          parseIsoTime (text.toList.drop (findSeparator text.toList + 1)) = some (time, dt.offset)) := by
  have made {day time : ℤ} {offset : Option ℤ} (same : (if InRange (day * 86400 * microsPerSecond + time) then
      some (DateTime.mk (day * 86400 * microsPerSecond + time) offset) else none) = some dt) :
      dt.wall = day * microsPerDay + time ∧ offset = dt.offset := by
    split at same
    · cases same
      refine ⟨?_, rfl⟩
      rw [microsPerDay, mul_assoc]
    · cases same
  simp only [fromIsoFormat, Option.bind_eq_bind, Option.bind_none] at parsed
  split at parsed
  · cases parsed
  · next long =>
    obtain ⟨day, dated, parsed⟩ := Option.bind_eq_some_iff.mp parsed
    refine ⟨not_lt.mp long, day, ?_⟩
    split at parsed
    · next ends =>
      obtain ⟨wall, offset⟩ := made parsed
      exact ⟨0, dated, wall, .inl ⟨ends, rfl, offset.symm⟩⟩
    · next more =>
      obtain ⟨⟨time, offset⟩, timed, parsed⟩ := Option.bind_eq_some_iff.mp parsed
      obtain ⟨wall, rfl⟩ := made parsed
      exact ⟨time, dated, wall, .inr ⟨not_le.mp more, timed⟩⟩

theorem calendarDay_eq_some {year month day : ℕ} {number : ℤ} (dated : calendarDay year month day = some number) :
    number = Gregorian.dayNumber year month day ∧ 1 ≤ year ∧ year ≤ 9999 ∧ 1 ≤ month ∧ month ≤ 12 ∧ 1 ≤ day ∧
      day ≤ Gregorian.daysInMonth year month := by
  rw [calendarDay] at dated
  split at dated
  · next fits =>
    cases dated
    exact ⟨rfl, fits⟩
  · cases dated

/-- What Python reads after a date with dashes. -/
theorem fromIsoFormat_dashed {text : String} {dt : DateTime} {afterYear afterMonth tail : List Char}
    {year month day : ℕ} (readYear : fixed 4 text.toList = some (year, '-' :: afterYear))
    (readMonth : fixed 2 afterYear = some (month, '-' :: afterMonth)) (readDay : fixed 2 afterMonth = some (day, tail))
    (parsed : fromIsoFormat text = some dt) :
    ∃ time, parseIsoDate (text.toList.take 10) = some (Gregorian.dayNumber year month day) ∧
      dt.wall = Gregorian.dayNumber year month day * microsPerDay + time ∧ text.toList.drop 8 = afterMonth ∧
      ((tail = [] ∧ time = 0 ∧ dt.offset = none) ∨
        ∃ c rest, tail = c :: rest ∧ text.toList.drop 11 = rest ∧ parseIsoTime rest = some (time, dt.offset)) := by
  obtain ⟨years, written, length, _, again⟩ := fixed_eq_some readYear
  obtain ⟨y₁, y₂, y₃, y₄, rfl⟩ : ∃ a b c d, years = [a, b, c, d] := by
    match years, length with
    | [a, b, c, d], _ => exact ⟨a, b, c, d, rfl⟩
  obtain ⟨m₁, m₂, rfl, tens, units, monthValue⟩ := fixed_two readMonth
  obtain ⟨d₁, d₂, rfl, tens', units', dayValue⟩ := fixed_two readDay
  have week : m₁ ≠ 'W' := ne_of_isDigit tens (by decide)
  have separator : findSeparator text.toList = 10 := by
    simp [findSeparator, written, week]
  have date : parseIsoDate (text.toList.take 10) = calendarDay year month day := by
    have front := again ['-', m₁, m₂, '-', d₁, d₂]
    simp only [List.cons_append, List.nil_append] at front
    simp [parseIsoDate, written, front, week, dropDash, fixed_two_cons tens units, fixed_two_cons tens' units',
      monthValue, dayValue]
  obtain ⟨_, number, time, dated, wall, rest⟩ := fromIsoFormat_eq_some parsed
  rw [separator, date] at dated
  obtain ⟨rfl, _⟩ := calendarDay_eq_some dated
  refine ⟨time, date.trans dated, wall, by simp [written], ?_⟩
  rw [separator, written] at rest
  cases tail with
  | nil =>
    rcases rest with ⟨_, midnight, naive⟩ | ⟨more, _⟩
    · exact .inl ⟨rfl, midnight, naive⟩
    · simp at more
  | cons c others =>
    rcases rest with ⟨ends, _⟩ | ⟨_, timed⟩
    · simp only [List.length_append, List.length_cons] at ends
      omega
    · exact .inr ⟨c, others, rfl, by simp [written], by simpa using timed⟩

/-- A text that Python reads starts with the four digits of a year. -/
theorem year_of_fromIsoFormat {text : String} {dt : DateTime} (python : fromIsoFormat text = some dt) :
    ∃ year rest, fixed 4 text.toList = some (year, rest) := by
  obtain ⟨_, day, _, dated, _⟩ := fromIsoFormat_eq_some python
  simp only [parseIsoDate, Option.bind_eq_bind, Option.bind_eq_some_iff] at dated
  obtain ⟨⟨year, rest⟩, read, _⟩ := dated
  have whole := fixed_append read (text.toList.drop (findSeparator text.toList))
  rw [List.take_append_drop] at whole
  exact ⟨year, _, whole⟩

/-- A date without dashes has eight digits. -/
private theorem parseIsoDate_basic {chars : List Char} {number : ℤ} (noDash : chars[4]? ≠ some '-')
    (noWeek : chars[4]? ≠ some 'W') (dated : parseIsoDate chars = some number) :
    ∃ year month day rest, fixed 8 chars = some (year * 10000 + month * 100 + day, rest) ∧
      calendarDay year month day = some number := by
  simp only [parseIsoDate, Option.bind_eq_bind, Option.bind_eq_some_iff] at dated
  obtain ⟨⟨year, rest⟩, readYear, dated⟩ := dated
  obtain ⟨digits, rfl, length, _⟩ := fixed_eq_some readYear
  have next : (digits ++ rest)[4]? = rest.head? := by
    rw [List.getElem?_append_right (by omega), length, List.head?_eq_getElem?]
  rw [next] at noDash noWeek
  simp only [noDash, noWeek, decide_false, if_false, Option.bind_eq_some_iff] at dated
  obtain ⟨⟨month, rest'⟩, readMonth, rest'', dash, ⟨day, tail⟩, readDay, dated⟩ := dated
  have same : rest' = rest'' := by
    unfold dropDash at dash
    split at dash
    · contradiction
    · contradiction
    · cases dash
    · exact Option.some.inj dash
  subst same
  refine ⟨year, month, day, tail, ?_, dated⟩
  have value : (year * 10 ^ 2 + month) * 10 ^ 2 + day = year * 10000 + month * 100 + day := by ring
  rw [← value]
  exact fixed_concat (fixed_concat readYear readMonth) readDay

/-- What Python reads of a text without dashes or weeks. -/
theorem fromIsoFormat_basic {text : String} {dt : DateTime} (noDash : text.toList[4]? ≠ some '-')
    (noWeek : text.toList[4]? ≠ some 'W') (python : fromIsoFormat text = some dt) :
    ∃ year month day tail number time, fixed 8 text.toList = some (year * 10000 + month * 100 + day, tail) ∧
      calendarDay year month day = some number ∧ dt.wall = number * microsPerDay + time ∧
      ((tail = [] ∧ time = 0 ∧ dt.offset = none) ∨
        ∃ c others, tail = c :: others ∧ parseIsoTime others = some (time, dt.offset)) := by
  obtain ⟨long, number, time, dated, wall, rest⟩ := fromIsoFormat_eq_some python
  have separator : findSeparator text.toList = 7 ∨ findSeparator text.toList = 8 := by
    rw [findSeparator, if_neg noDash, if_neg noWeek]
    split
    · exact .inl rfl
    · exact .inr rfl
  have within : 4 < findSeparator text.toList := by omega
  have date : (text.toList.take (findSeparator text.toList))[4]? = text.toList[4]? := List.getElem?_take_of_lt within
  obtain ⟨year, month, day, rest', read, dated⟩ := parseIsoDate_basic (by rwa [date]) (by rwa [date]) dated
  have eight : findSeparator text.toList = 8 ∧ rest' = [] := by
    obtain ⟨digits, same, length, _⟩ := fixed_eq_some read
    have lengths := congrArg List.length same
    rw [List.length_append, List.length_take] at lengths
    refine ⟨by omega, List.eq_nil_of_length_eq_zero ?_⟩
    omega
  obtain ⟨eight, rfl⟩ := eight
  rw [eight] at read rest
  have whole := fixed_append read (text.toList.drop 8)
  rw [List.take_append_drop, List.nil_append] at whole
  refine ⟨year, month, day, text.toList.drop 8, number, time, whole, dated, wall, ?_⟩
  rcases rest with ⟨ends, midnight, naive⟩ | ⟨more, timed⟩
  · exact .inl ⟨List.drop_eq_nil_of_le ends, midnight, naive⟩
  · exact .inr ⟨text.toList[8], text.toList.drop 9, List.drop_eq_getElem_cons more, timed⟩

end Python
