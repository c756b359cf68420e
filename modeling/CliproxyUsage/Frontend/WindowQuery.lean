import CliproxyUsage.Frontend.QueryKeys
import CliproxyUsage.Frontend.Range
import CliproxyUsage.JavaScript.UrlSearchParams

/-! # The window of a usage request

A picked range as time values, and as the texts that a request sends. A computation that throws, or that
would print an invalid date, has no result.
-/

namespace CliproxyUsage.Frontend

open JavaScript

/-- Time values of a range; no start means all time. -/
structure RangeWindow where
  start : Option ℤ
  end_ : ℤ
deriving DecidableEq, Repr

/-- The window does not start after its end. -/
def RangeWindow.Ordered (window : RangeWindow) : Prop := ∀ start ∈ window.start, start ≤ window.end_

instance (window : RangeWindow) : Decidable window.Ordered := inferInstanceAs (Decidable (∀ _ ∈ window.start, _))

/-- The presets that end now and last a whole number of days. -/
def rolling : PresetId → Option ℤ
  | .last24h => some msPerDay
  | .last7d => some (7 * msPerDay)
  | .last30d => some (30 * msPerDay)
  | .last90d => some (90 * msPerDay)
  | _ => none

section Clock

variable (clock : LocalClock) (now : ℤ)

/-- The midnight at the start of a month, counted from the one of `now`. -/
def monthStart (months : ℤ) : Option ℤ := clock.newDate (clock.getFullYear now) (clock.getMonth now + months) 1 0 0

def presetWindow (id : PresetId) : Option RangeWindow :=
  match rolling id with
  | some length => some ⟨some (now - length), now⟩
  | none =>
    match id with
    | .today => do some ⟨some (← clock.startOfDay now), now⟩
    | .thisMonth => do some ⟨some (← monthStart clock now 0), now⟩
    | .lastMonth => do some ⟨some (← monthStart clock now (-1)), ← monthStart clock now 0⟩
    | _ => some ⟨none, now⟩

/-- Throws for an invalid custom range. -/
def resolveWindow (sel : RangeSel) : Option RangeWindow :=
  match sel with
  | .custom start end_ => do
    let start ← parseLocalInput clock start
    let end_ ← parseLocalInput clock end_
    if start ≥ end_ then none else some ⟨some start, end_⟩
  | .preset id => presetWindow clock now id

end Clock

/-- Four digits, or a sign and six. -/
def isoYear (year : ℤ) : List Char :=
  if 0 ≤ year ∧ year ≤ 9999 then Digits.pad 4 year.toNat
  else (if year < 0 then '-' else '+') :: Digits.pad 6 year.natAbs

/-- The text of a valid date, `YYYY-MM-DDTHH:mm:ss.sssZ`. -/
def isoText (time : ℤ) : String :=
  let day := time / msPerDay
  let ms := (time % msPerDay).toNat
  String.ofList (isoYear (Gregorian.yearOf day) ++
    '-' :: Digits.pad 2 (Gregorian.monthOf day) ++ '-' :: Digits.pad 2 (Gregorian.dayOfMonth day).toNat ++
    'T' :: Digits.pad 2 (ms / 3600000) ++ ':' :: Digits.pad 2 (ms / 60000 % 60) ++
    ':' :: Digits.pad 2 (ms / 1000 % 60) ++ '.' :: Digits.pad 3 (ms % 1000) ++ ['Z'])

/-- `new Date(time).toISOString()`. -/
def toISOString (time : ℤ) : Option String := (timeClip time).map isoText

/-- The key's range resolved at `now`, in the zone named `tz`. -/
def computeWindow (clock : LocalClock) (range : RangeSel) (tz : String) (now : ℤ) : Option ResolvedWindow := do
  let window ← resolveWindow clock now range
  let start ← match window.start with
    | none => some none
    | some start => (toISOString start).map some
  some ⟨start, ← toISOString window.end_, tz⟩

/-- The query string of the request that a key names. -/
def queryString (w : ResolvedWindow) (params : Params) : String := (UrlSearchParams.mk (requestParams w params)).toString

-- Years of five digits are signed.
example : toISOString 253402300800000 = some "+010000-01-01T00:00:00.000Z" := by decide +kernel

end CliproxyUsage.Frontend
