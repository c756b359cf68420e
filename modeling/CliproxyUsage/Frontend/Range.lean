import CliproxyUsage.Calendar.Digits
import CliproxyUsage.Frontend.ViewState
import CliproxyUsage.JavaScript.LocalDate
import Mathlib.Data.Nat.Log

/-! # Ranges of the dashboard

The presets by name, and the custom ranges on the viewer's clock: which are valid, what a pick of calendar days
gives, and which days a range covers.
-/

namespace CliproxyUsage.Frontend

open JavaScript

def presets : List PresetId := [.last24h, .today, .last7d, .last30d, .last90d, .thisMonth, .lastMonth, .all]

def presetName : PresetId → String
  | .last24h => "24h"
  | .today => "today"
  | .last7d => "7d"
  | .last30d => "30d"
  | .last90d => "90d"
  | .thisMonth => "this_month"
  | .lastMonth => "last_month"
  | .all => "all"

/-- The preset of a name, when `isPresetId` accepts it. -/
def presetOf (v : String) : Option PresetId := presets.find? fun id => presetName id = v

def expect (c : Char) : List Char → Option (List Char)
  | first :: rest => if first = c then some rest else none
  | [] => none

/-- The five fields of `YYYY-MM-DDTHH:mm`. -/
def localInput (s : String) : Option (ℕ × ℕ × ℕ × ℕ × ℕ) := do
  let (y, rest) ← Digits.fixed 4 s.toList
  let (mo, rest) ← Digits.fixed 2 (← expect '-' rest)
  let (d, rest) ← Digits.fixed 2 (← expect '-' rest)
  let (h, rest) ← Digits.fixed 2 (← expect 'T' rest)
  let (mi, rest) ← Digits.fixed 2 (← expect ':' rest)
  if rest = [] then some (y, mo, d, h, mi) else none

/-- The time value of a local text, unless it is malformed or names no date. -/
def parseLocalInput (clock : LocalClock) (s : String) : Option ℤ := do
  let (y, mo, d, h, mi) ← localInput s
  if h > 23 ∨ mi > 59 then none
  else
    let date ← clock.newDate y (mo - 1) d h mi
    if clock.getFullYear date ≠ y ∨ clock.getMonth date ≠ mo - 1 ∨ clock.getDate date ≠ d then none else some date

/-- Both ends parse, and the start is strictly before the end. -/
def isValidCustomRange (clock : LocalClock) (start end_ : String) : Bool :=
  match parseLocalInput clock start, parseLocalInput clock end_ with
  | some s, some e => s < e
  | _, _ => false

/-- The digits of a number, with zeros in front up to a width. -/
def leadingZeros (width n : ℕ) : List Char :=
  if n < 10 ^ width then Digits.pad width n else Digits.pad (Nat.log 10 n + 1) n

/-- The printed year: 1 stands for both 1 AD and 1 BC, the year 0. -/
def eraYear (year : ℤ) : ℕ := (if 0 < year then year else 1 - year).toNat

/-- `format(ms, "yyyy-MM-dd'T'HH:mm")`. -/
def toLocalInput (clock : LocalClock) (ms : ℤ) : String :=
  String.ofList (leadingZeros 4 (eraYear (clock.getFullYear ms)) ++
    '-' :: leadingZeros 2 (clock.getMonth ms + 1).toNat ++ '-' :: leadingZeros 2 (clock.getDate ms).toNat ++
    'T' :: leadingZeros 2 (clock.getHours ms).toNat ++ ':' :: leadingZeros 2 (clock.getMinutes ms).toNat)

/-- The first day's midnight to the next midnight after the last, capped at `now`; none throws. -/
def dayRange (clock : LocalClock) (first last now : ℤ) : Option (String × String) := do
  let start ← clock.startOfDay first
  let lastStart ← clock.startOfDay last
  let next ← clock.addDays lastStart 1
  some (toLocalInput clock start, toLocalInput clock (min next now))

/-- The days that a range covers; an end at midnight excludes that day. -/
def rangeDays (clock : LocalClock) (start end_ : String) : Option (ℤ × ℤ) := do
  let s ← parseLocalInput clock start
  let e ← parseLocalInput clock end_
  some (s, max s (e - 1))

@[simp] theorem presetOf_presetName (id : PresetId) : presetOf (presetName id) = some id := by
  cases id <;> decide

end CliproxyUsage.Frontend
