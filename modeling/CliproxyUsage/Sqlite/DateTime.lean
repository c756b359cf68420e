import CliproxyUsage.Calendar.Digits
import CliproxyUsage.Calendar.Gregorian
import Mathlib.Data.Prod.Lex
import Mathlib.Algebra.Order.Floor.Defs
import Mathlib.Data.Rat.Floor

/-! # SQLite's date functions

`datetime(text)` and `strftime('%s', text)` on a stored text. The time values they accept are a
date with an optional time and offset, a time alone (on 2000-01-01), and a Julian day number; any
other text gives NULL, except the words for the current time, which raise an error inside an
index. The text that `datetime` prints is kept as its day number and second of that day, which
order as the texts do.
-/

namespace Sqlite

def isSpace (c : Char) : Bool := c = ' ' ∨ (9 ≤ c.toNat ∧ c.toNat ≤ 13)

def skipSpaces (chars : List Char) : List Char := chars.dropWhile isSpace

/-- A field of `n` digits between two bounds. -/
def field (n low high : ℕ) (chars : List Char) : Option (ℕ × List Char) := do
  let (v, rest) ← Digits.fixed n chars
  if low ≤ v ∧ v ≤ high then some (v, rest) else none

def expect (c : Char) : List Char → Option (List Char)
  | first :: rest => if first = c then some rest else none
  | [] => none

/-- The broken-down value of an accepted text. -/
structure TimeValue where
  /-- The day number of the date as written. -/
  day : ℤ
  /-- Seconds since midnight; hour 24 is accepted. -/
  clock : ℤ
  /-- Seconds that the offset adds to UTC. -/
  offset : ℤ
  /-- The printed date is recomputed from the instant. -/
  recompute : Bool
deriving DecidableEq, Repr

/-- The optional offset at the end of a text, in minutes; hours go up to 14. -/
def parseTimezone (chars : List Char) : Option ℤ :=
  match skipSpaces chars with
  | [] => some 0
  | first :: rest =>
    if first = 'Z' ∨ first = 'z' then
      if skipSpaces rest = [] then some 0 else none
    else if first = '+' ∨ first = '-' then do
      let (hour, rest) ← field 2 0 14 rest
      let rest ← expect ':' rest
      let (minute, rest) ← field 2 0 59 rest
      let total : ℤ := (hour * 60 + minute : ℕ)
      if skipSpaces rest = [] then some (if first = '-' then -total else total) else none
    else none

/-- The optional fraction of a second, whose digits are truncated. -/
def skipFraction : List Char → List Char
  | '.' :: c :: rest => if c.isDigit then rest.dropWhile Char.isDigit else '.' :: c :: rest
  | chars => chars

/-- `HH:MM[:SS[.fff]]` with its offset: seconds since midnight and offset in minutes. -/
def parseHhMmSs (chars : List Char) : Option (ℤ × ℤ) := do
  let (hour, rest) ← field 2 0 24 chars
  let rest ← expect ':' rest
  let (minute, rest) ← field 2 0 59 rest
  let (second, rest) ←
    match rest with
    | ':' :: rest => (field 2 0 59 rest).map fun read => (read.1, skipFraction read.2)
    | rest => some (0, rest)
  let offset ← parseTimezone rest
  some ((hour * 3600 + minute * 60 + second : ℕ), offset)

/-- The sign of a year before 0. -/
def parseSign : List Char → Bool × List Char
  | '-' :: rest => (true, rest)
  | chars => (false, chars)

/-- A date, possibly before year 0, and the time after spaces and `T`s. -/
def parseYyyyMmDd (chars : List Char) : Option TimeValue := do
  let (negative, chars) := parseSign chars
  let (year, rest) ← field 4 0 9999 chars
  let rest ← expect '-' rest
  let (month, rest) ← field 2 1 12 rest
  let rest ← expect '-' rest
  let (day, rest) ← field 2 1 31 rest
  let number := Gregorian.dayNumber (if negative then -year else year) month day
  match rest.dropWhile fun c => isSpace c || c = 'T' with
  | [] => some ⟨number, 0, 0, day > 28⟩
  | rest =>
    let (clock, offset) ← parseHhMmSs rest
    some ⟨number, clock, offset * 60, day > 28⟩

/-- The decimal number that a whole text spells: sign, digits, fraction and exponent. -/
def parseNumber (chars : List Char) : Option ℚ := do
  let chars := skipSpaces chars
  let (sign, chars) : ℚ × List Char := match chars with
    | '-' :: rest => (-1, rest)
    | '+' :: rest => (1, rest)
    | chars => (1, chars)
  let whole := chars.takeWhile Char.isDigit
  let rest := chars.dropWhile Char.isDigit
  let (fraction, rest) := match rest with
    | '.' :: rest => (rest.takeWhile Char.isDigit, rest.dropWhile Char.isDigit)
    | rest => ([], rest)
  let mantissa ← Digits.value? (whole ++ fraction)
  let (exponent, rest) ← match rest with
    | 'e' :: rest | 'E' :: rest =>
      let (expSign, rest) : ℤ × List Char := match rest with
        | '-' :: rest => (-1, rest)
        | '+' :: rest => (1, rest)
        | rest => (1, rest)
      (Digits.value? (rest.takeWhile Char.isDigit)).map fun e =>
        (expSign * (min e 10000 : ℕ), rest.dropWhile Char.isDigit)
    | rest => some (0, rest)
  if skipSpaces rest = [] then some (sign * mantissa * (10 : ℚ) ^ (exponent - fraction.length)) else none

/-- Seconds from the start of the Julian day count to 1970-01-01. -/
def julianEpoch : ℤ := 210866760000

/-- A number is a Julian day, rounded to milliseconds; the part below a second is dropped. -/
def ofJulianDay (number : ℚ) : Option TimeValue :=
  if 0 ≤ number ∧ number < 10746969 / 2 then
    let seconds := ⌊number * 86400000 + 1 / 2⌋ / 1000 - julianEpoch
    some ⟨seconds / 86400, seconds % 86400, 0, false⟩
  else none

/-- Seconds from 1970 of a broken-down time. -/
def TimeValue.seconds (t : TimeValue) : ℤ := t.day * 86400 + t.clock - t.offset

/-- The instants between the Julian day count's start and the end of year 9999. -/
def TimeValue.Valid (t : TimeValue) : Prop := -julianEpoch ≤ t.seconds ∧ t.seconds < 253402300800

instance (t : TimeValue) : Decidable t.Valid := inferInstanceAs (Decidable (_ ∧ _))

/-- The text up to its first NUL character. -/
def cString (text : String) : List Char := text.toList.takeWhile fun c => c ≠ '\x00'

/-- Words for the current time, in any case. -/
def isCurrentTime (text : String) : Bool :=
  (cString text).map Char.toLower ∈ ["now".toList, "subsec".toList, "subsecond".toList]

/-- The time value of a text; NULL is `none`. -/
def timeValue (text : String) : Option TimeValue :=
  let chars := cString text
  let parsed := (parseYyyyMmDd chars).orElse fun _ =>
    ((parseHhMmSs chars).map fun time => ⟨Gregorian.dayNumber 2000 1 1, time.1, time.2 * 60, true⟩).orElse fun _ =>
      (parseNumber chars).bind ofJulianDay
  parsed.filter fun t => decide t.Valid

/-- What `datetime` prints, as a day number and a second of that day. A time with an offset is
normalised; hour 24 without one stays as written, after a date that may be recomputed. -/
def TimeValue.printed (t : TimeValue) : ℤ ×ₗ ℤ :=
  if t.offset ≠ 0 then toLex (t.seconds / 86400, t.seconds % 86400)
  else if t.recompute then
    toLex (t.seconds / 86400, if t.clock < 86400 then t.seconds % 86400 else t.clock)
  else toLex (t.day, t.clock)

/-- `datetime(text)`. -/
def datetime (text : String) : Option (ℤ ×ₗ ℤ) := (timeValue text).map TimeValue.printed

/-- `CAST(strftime('%s', text) AS INTEGER)`. -/
def unixSeconds (text : String) : Option ℤ := (timeValue text).map TimeValue.seconds

end Sqlite
