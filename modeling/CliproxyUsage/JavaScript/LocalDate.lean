import CliproxyUsage.Calendar.Gregorian

/-! # `Date` in local time

Time values are milliseconds since 1970-01-01T00:00Z, and no time value is NaN. What the zone of the host
says is `UTC(t)` and `LocalTime(t)` of the language specification, which the clock gives for every time.
-/

namespace JavaScript

structure LocalClock where
  /-- The time value of a local time. -/
  utc : ℤ → ℤ
  /-- The local time of a time value. -/
  localTime : ℤ → ℤ

def msPerMinute : ℤ := 60000

def msPerHour : ℤ := 3600000

def msPerDay : ℤ := 86400000

/-- Two-digit years are of the twentieth century. -/
def makeFullYear (year : ℤ) : ℤ := if 0 ≤ year ∧ year ≤ 99 then 1900 + year else year

/-- The day of a date; months count from 0 and may lie outside the year. -/
def makeDay (year month date : ℤ) : ℤ := Gregorian.dayNumber (year + month / 12) ((month % 12).toNat + 1) 0 + date

def makeTime (hours minutes : ℤ) : ℤ := hours * msPerHour + minutes * msPerMinute

/-- Time values reach 100,000,000 days from 1970. -/
def timeClip (time : ℤ) : Option ℤ := if |time| ≤ 100000000 * msPerDay then some time else none

namespace LocalClock

variable (clock : LocalClock)

/-- `new Date(year, month, date, hours, minutes).getTime()`. -/
def newDate (year month date hours minutes : ℤ) : Option ℤ :=
  timeClip (clock.utc (makeDay (makeFullYear year) month date * msPerDay + makeTime hours minutes))

/-- The local day of a time value. -/
def day (time : ℤ) : ℤ := clock.localTime time / msPerDay

def getFullYear (time : ℤ) : ℤ := Gregorian.yearOf (clock.day time)

def getMonth (time : ℤ) : ℤ := Gregorian.monthOf (clock.day time) - 1

def getDate (time : ℤ) : ℤ := Gregorian.dayOfMonth (clock.day time)

def getHours (time : ℤ) : ℤ := clock.localTime time % msPerDay / msPerHour

def getMinutes (time : ℤ) : ℤ := clock.localTime time % msPerHour / msPerMinute

/-- `startOfDay(date).getTime()`, with all of the time of the day set to zero. -/
def startOfDay (time : ℤ) : Option ℤ := timeClip (clock.utc (clock.day time * msPerDay))

/-- `addDays(date, amount).getTime()`, which keeps the wall clock. -/
def addDays (time amount : ℤ) : Option ℤ := timeClip (clock.utc (clock.localTime time + amount * msPerDay))

end LocalClock

end JavaScript
