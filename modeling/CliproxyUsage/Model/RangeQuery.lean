import CliproxyUsage.Model.Routes

/-! # Validation of usage requests

The query parameters of a range-consuming endpoint, from their declared types to the validated range. The
server's libraries read them of the query string, and know the zones.
-/

namespace CliproxyUsage

open Python

structure HttpException where
  statusCode : ℕ
  detail : String
deriving DecidableEq, Repr

/-- Parameters that fail their own validation, an answer of the endpoint, or an exception that it lets through. -/
inductive RequestError where
  | validation (names : List String)
  | http (exception : HttpException)
  | raised (exception : PyError)
deriving DecidableEq, Repr

/-- `Bucket | Literal["auto"]`. -/
inductive BucketParam where
  | auto
  | fixed (bucket : Bucket)
deriving DecidableEq, Repr

/-- The parameters of `_RangeParams`, each of its declared type. -/
structure RangeQuery where
  tz : String
  start : Option DateTime := none
  end_ : Option DateTime := none
  people : Option String := none
  models : Option String := none
  credentials : Option String := none

/-- What the server's libraries supply. -/
structure Libraries where
  /-- The `datetime` of a query parameter. -/
  parse : String → Option DateTime
  /-- `ZoneInfo(key)`, unless it raises. -/
  zoneInfo : String → Option Zone
  /-- The range and the bucket that the summary endpoint is called with, for a query string and `_RangeParams`. -/
  summaryArguments : (RangeQuery → Except RequestError RangeParams) → String →
    Except RequestError (RangeParams × BucketParam)
  /-- The breakdown endpoint also takes its dimension. -/
  breakdownArguments : (RangeQuery → Except RequestError RangeParams) → String →
    Except RequestError (Dimension × RangeParams × BucketParam)

/-- `dt.astimezone(UTC)` of an aware `datetime`. -/
def astimezoneUtc (wall offset : ℤ) : Except RequestError ℤ :=
  if InRange (wall - offset) then .ok (wall - offset) else .error (.raised .overflowError)

/-- The instant of one end; a naive one is rejected. -/
def resolveEnd (name : String) (dt : DateTime) : Except RequestError (ℤ × ℤ) :=
  match dt.offset with
  | none => .error (.http ⟨422, name ++ " must include a timezone offset"⟩)
  | some offset => .ok (dt.wall, offset)

/-- Validate the window and normalise it to UTC. -/
def resolveWindow (now : ℤ) (start end_ : Option DateTime) : Except RequestError Window := do
  let start ← start.mapM (resolveEnd "start")
  let end_ ← end_.mapM (resolveEnd "end")
  let resolvedStart ← start.mapM fun (wall, offset) => astimezoneUtc wall offset
  let resolvedEnd ← match end_ with
    | some (wall, offset) => astimezoneUtc wall offset
    | none => .ok now
  if resolvedStart.any fun start => start > resolvedEnd then .error (.http ⟨422, "start must be <= end"⟩)
  else .ok ⟨resolvedStart, resolvedEnd⟩

def resolveTz (libraries : Libraries) (tz : String) : Except RequestError Zone :=
  match libraries.zoneInfo tz with
  | some zone => .ok zone
  | none => .error (.http ⟨422, "unknown timezone: " ++ tz⟩)

/-- `_RangeParams(...)`, when the clock says `now`. -/
def RangeQuery.resolve (libraries : Libraries) (now : ℤ) (query : RangeQuery) : Except RequestError RangeParams := do
  let window ← resolveWindow now query.start query.end_
  let tz ← resolveTz libraries query.tz
  .ok { window, tz, people := parseList query.people, models := parseList query.models,
        credentials := parseList query.credentials }

/-- `_bucket(value)`. -/
def BucketParam.bucket : BucketParam → Option Bucket
  | .auto => none
  | .fixed bucket => some bucket

/-- What the summary endpoint queries: the range and the bucket of its request. -/
def summaryRequest (libraries : Libraries) (now : ℤ) (queryString : String) :
    Except RequestError (RangeParams × Option Bucket) := do
  let (rng, bucket) ← libraries.summaryArguments (·.resolve libraries now) queryString
  .ok (rng, bucket.bucket)

/-- What the breakdown endpoint queries, with the dimension of its rows. -/
def breakdownRequest (libraries : Libraries) (now : ℤ) (queryString : String) :
    Except RequestError (Dimension × RangeParams × Option Bucket) := do
  let (dim, rng, bucket) ← libraries.breakdownArguments (·.resolve libraries now) queryString
  .ok (dim, rng, bucket.bucket)

end CliproxyUsage
