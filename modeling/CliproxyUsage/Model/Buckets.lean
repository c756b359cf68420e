import CliproxyUsage.Python.ZoneInfo
import CliproxyUsage.ToMathlib.Bisect
import CliproxyUsage.ToMathlib.ExceptMap

/-! # Viewer-local time buckets

The dense axis of hour, day or week buckets in a viewer's zone, the choice of the granularity, and
the assignment of 15-minute UTC slices to axis positions.
-/

namespace CliproxyUsage

open Python

inductive Bucket where
  | hour
  | day
  | week
deriving DecidableEq, Repr

/-- Slice width of the SQL grouping. -/
def sliceSeconds : ℤ := 900

/-- Explicit granularities coarsen to the next unit beyond this many buckets. -/
def maxBuckets : ℕ := 1000

def autoHourMax : ℤ := 2 * microsPerDay

def autoDayMax : ℤ := 120 * microsPerDay

def coarser : Bucket → Option Bucket
  | .hour => some .day
  | .day => some .week
  | .week => none

/-- Pick hour up to 2 days, day up to 120 days, week beyond. -/
def autoBucket (start end_ : ℤ) : Bucket :=
  if end_ - start ≤ autoHourMax then .hour
  else if end_ - start ≤ autoDayMax then .day
  else .week

/-- Midnight of a day, on the first pass of the wall clock. -/
def localMidnight (day : ℤ) : Except PyError LocalTime :=
  if InRange (day * microsPerDay) then .ok ⟨day * microsPerDay, false⟩ else .error .overflowError

/-- The start of the bucket containing `instant`. -/
def floorToBucket (instant : ℤ) (bucket : Bucket) (tz : Zone) : Except PyError LocalTime := do
  let local_ ← tz.fromUtc instant
  match bucket with
  | .hour => .ok ⟨local_.wall - local_.wall % microsPerHour, local_.fold⟩
  | .day => localMidnight (local_.wall / microsPerDay)
  | .week =>
    let day := local_.wall / microsPerDay
    localMidnight (day - Gregorian.weekday day)

def nextBucket (cur : LocalTime) (bucket : Bucket) (tz : Zone) : Except PyError LocalTime :=
  match bucket with
  | .hour =>
    -- Step in absolute time so the repeated fall-back hour stays distinct.
    let utc := tz.toUtc cur
    if InRange utc ∧ InRange (utc + microsPerHour) then tz.fromUtc (utc + microsPerHour)
    else .error .overflowError
  | .day => localMidnight (cur.wall / microsPerDay + 1)
  | .week => localMidnight (cur.wall / microsPerDay + 7)

/-- The `while` loop of `bucketStarts`, up to `limit` entries. -/
def bucketsFrom (end_ : ℤ) (bucket : Bucket) (tz : Zone) :
    ℕ → Option ℕ → LocalTime → Except PyError (List LocalTime)
  | 0, _, _ => .error .diverges
  | fuel + 1, limit, cur =>
    if tz.toUtc cur < end_ ∧ limit ≠ some 0 then do
      let next ← nextBucket cur bucket tz
      let rest ← bucketsFrom end_ bucket tz fuel (limit.map (· - 1)) next
      .ok (cur :: rest)
    else .ok []

/-- More than the hours between `datetime.min` and `datetime.max`. -/
def loopFuel : ℕ := 87700000

/-- Dense bucket starts from the bucket containing `start` up to `end_`, exclusive. -/
def bucketStarts (start end_ : ℤ) (bucket : Bucket) (tz : Zone) (limit : Option ℕ) :
    Except PyError (List LocalTime) := do
  let first ← floorToBucket start bucket tz
  bucketsFrom end_ bucket tz loopFuel limit first

/-- The coarsening loop; `fuel` bounds the entries of `coarser`. -/
def coarsen (start end_ : ℤ) (tz : Zone) : ℕ → Bucket → Except PyError Bucket
  | 0, bucket => .ok bucket
  | fuel + 1, bucket =>
    match coarser bucket with
    | none => .ok bucket
    | some next => do
      let starts ← bucketStarts start end_ bucket tz (some (maxBuckets + 1))
      if starts.length ≤ maxBuckets then .ok bucket else coarsen start end_ tz fuel next

/-- Resolve auto (`none`) or coarsen an explicit bucket past `maxBuckets`. -/
def effectiveBucket (start end_ : ℤ) (requested : Option Bucket) (tz : Zone) : Except PyError Bucket :=
  coarsen start end_ tz 2 (requested.getD (autoBucket start end_))

/-- `int(b.timestamp())` of every bucket start. -/
def edges (tz : Zone) (starts : List LocalTime) : List ℤ :=
  starts.map fun start => (tz.toUtc start).tdiv microsPerSecond

/-- The bucket position of a slice, or none before the axis. -/
def slicePosition (edges : List ℤ) (sliceNo : ℤ) : Option ℕ :=
  match edges.bisectRight (sliceNo * sliceSeconds) with
  | 0 => none
  | position + 1 => some position

end CliproxyUsage
