import CliproxyUsage.Calendar.Digits
import CliproxyUsage.Calendar.Gregorian

/-! # `datetime.fromisoformat`

Instants and wall clocks are counted in microseconds from 1970-01-01T00:00:00. `fromIsoFormat`
follows the documented format: a calendar or week date in basic or extended form, any single
character as the separator, an optional time whose fraction is truncated to microseconds, and an
optional offset. Every rejected string raises `ValueError`, here `none`.
-/

namespace Python

/-- The wall clock of a `datetime`, and its offset from UTC when it has one. -/
structure DateTime where
  wall : ℤ
  offset : Option ℤ
deriving DecidableEq, Repr

def microsPerSecond : ℤ := 1000000

/-- `datetime.min`, 0001-01-01T00:00:00. -/
def minWall : ℤ := -62135596800 * microsPerSecond

/-- `datetime.max`, 9999-12-31T23:59:59.999999. -/
def maxWall : ℤ := 253402300800 * microsPerSecond - 1

def InRange (wall : ℤ) : Prop := minWall ≤ wall ∧ wall ≤ maxWall

instance (wall : ℤ) : Decidable (InRange wall) := inferInstanceAs (Decidable (_ ∧ _))

/-- A time of day or an offset, before its fields are checked. -/
structure ClockFields where
  hour : ℕ
  minute : ℕ := 0
  second : ℕ := 0
  micro : ℕ := 0
deriving DecidableEq, Repr

def ClockFields.micros (clock : ClockFields) : ℤ :=
  (clock.hour * 3600 + clock.minute * 60 + clock.second : ℕ) * microsPerSecond + clock.micro

/-- Where the date ends: an extended week date may use a hyphen as the separator. -/
def findSeparator (chars : List Char) : ℕ :=
  if chars.length = 7 then 7
  else if chars[4]? = some '-' then
    if chars[5]? = some 'W' then
      if chars[8]? = some '-' then
        if (chars[10]?.map Char.isDigit).getD false then 8 else 10
      else 8
    else 10
  else if chars[4]? = some 'W' then
    let digits := (chars.drop 7).takeWhile Char.isDigit
    if digits.length < 2 then 7 + digits.length else if digits.length % 2 = 1 then 7 else 8
  else 8

/-- The week of an ISO year: 53 exists when the year starts on a Thursday, or on a Wednesday in a leap year. -/
def isoWeekDay (year week day : ℕ) : Option ℤ :=
  let first := Gregorian.weekday (Gregorian.dayNumber year 1 1)
  let long := first = 3 ∨ first = 2 ∧ Gregorian.isLeap year
  if 1 ≤ year ∧ year ≤ 9999 ∧ 1 ≤ week ∧ (week ≤ 52 ∨ week = 53 ∧ long) ∧ 1 ≤ day ∧ day ≤ 7 then
    some (Gregorian.isoWeekOneMonday year + ((week : ℤ) - 1) * 7 + ((day : ℤ) - 1))
  else none

def calendarDay (year month day : ℕ) : Option ℤ :=
  if 1 ≤ year ∧ year ≤ 9999 ∧ 1 ≤ month ∧ month ≤ 12 ∧ 1 ≤ day ∧ day ≤ Gregorian.daysInMonth year month then
    some (Gregorian.dayNumber year month day)
  else none

/-- Drop a separator that must be there exactly in the extended forms. -/
def dropDash (extended : Bool) (chars : List Char) : Option (List Char) :=
  match extended, chars with
  | true, '-' :: rest => some rest
  | true, _ => none
  | false, '-' :: _ => none
  | false, rest => some rest

/-- The day number of the date part. -/
def parseIsoDate (chars : List Char) : Option ℤ := do
  let (year, rest) ← Digits.fixed 4 chars
  let extended := rest.head? = some '-'
  let rest := if extended then rest.tail else rest
  if rest.head? = some 'W' then
    let (week, rest) ← Digits.fixed 2 rest.tail
    match rest with
    | [] => isoWeekDay year week 1
    | _ =>
      let rest ← dropDash extended rest
      let (day, _) ← Digits.fixed 1 rest
      isoWeekDay year week day
  else
    let (month, rest) ← Digits.fixed 2 rest
    let rest ← dropDash extended rest
    let (day, _) ← Digits.fixed 2 rest
    calendarDay year month day

/-- The first six digits of a fraction of a second. -/
def parseFraction (chars : List Char) : Option ℕ := do
  let _ ← Digits.value? chars
  let kept := chars.take 6
  let v ← Digits.value? kept
  some (v * 10 ^ (6 - kept.length))

/-- `HH[:MM[:SS[.f+]]]` or the same without colons. -/
def parseClock (chars : List Char) : Option ClockFields := do
  let (hour, rest) ← Digits.fixed 2 chars
  let extended := rest.head? = some ':'
  if rest = [] then return { hour }
  let (minute, rest) ← Digits.fixed 2 (if extended then rest.tail else rest)
  if rest = [] then return { hour, minute }
  if extended ∧ rest.head? ≠ some ':' then none
  let (second, rest) ← Digits.fixed 2 (if extended then rest.tail else rest)
  match rest with
  | [] => return { hour, minute, second }
  | '.' :: fraction | ',' :: fraction =>
    let micro ← parseFraction fraction
    return { hour, minute, second, micro }
  | _ => none

def isZoneStart (c : Char) : Bool := c = '+' ∨ c = '-' ∨ c = 'Z'

/-- The offset after the time, in microseconds; a naive time has none. -/
def parseOffset : List Char → Option (Option ℤ)
  | [] => some none
  | ['Z'] => some (some 0)
  | sign :: fields =>
    if sign = 'Z' then none
    else do
      let clock ← parseClock fields
      if clock.hour ≤ 23 ∧ clock.minute ≤ 59 ∧ clock.second ≤ 59 then
        some (some (if sign = '-' then -clock.micros else clock.micros))
      else none

/-- The microseconds since midnight; hour 24 is allowed for midnight at the end of the day. -/
def timeOfDay (clock : ClockFields) : Option ℤ :=
  if clock.hour ≤ 23 ∧ clock.minute ≤ 59 ∧ clock.second ≤ 59 ∨
      clock.hour = 24 ∧ clock.minute = 0 ∧ clock.second = 0 ∧ clock.micro = 0 then
    some clock.micros
  else none

/-- The time and offset after the separator; a date alone means midnight. -/
def parseIsoTime (chars : List Char) : Option (ℤ × Option ℤ) := do
  let clock ← parseClock (chars.takeWhile fun c => !isZoneStart c)
  let time ← timeOfDay clock
  let offset ← parseOffset (chars.dropWhile fun c => !isZoneStart c)
  some (time, offset)

/-- `datetime.fromisoformat(s)`. -/
def fromIsoFormat (s : String) : Option DateTime := do
  let chars := s.toList
  if chars.length < 7 then none
  let split := findSeparator chars
  let day ← parseIsoDate (chars.take split)
  let (time, offset) ← if chars.length ≤ split then some (0, none) else parseIsoTime (chars.drop (split + 1))
  let wall := day * 86400 * microsPerSecond + time
  if InRange wall then some { wall, offset } else none

end Python
