import CliproxyUsage.Model.PricingFetch

/-! # The price cache on the disk

What one call of `fetch_pricing` reads and writes as text. The write goes through a temporary file and a
rename and may fail at each step; a temporary file that cannot be removed stays beside the cache. Reads, `exists` and
`stat` succeed, and a download fails only in ways that the call handles.
-/

namespace CliproxyUsage

open Python

/-- `json.dumps` and `json.loads`, where a text that is no JSON loads as nothing. -/
structure JsonText where
  dumps : Json → String
  loads : String → Option Json

/-- What was loaded loads again from its dump. -/
def JsonText.RoundTrips (json : JsonText) : Prop :=
  ∀ text value, json.loads text = some value → json.loads (json.dumps value) = some value

structure DiskFile where
  text : String
  mtime : ℚ
deriving DecidableEq

/-- The file at the cache path, and the texts of temporary files left beside it. -/
structure Disk where
  cache : Option DiskFile
  temps : List String
deriving DecidableEq

/-- How far `_write_cache_atomic` gets, and whether it can remove its temporary file after a failure. -/
inductive WriteOutcome where
  | uncreated
  | undumped (written : String) (unlinked : Bool)
  | unreplaced (unlinked : Bool)
  | replaced (mtime : ℚ)

/-- How a request ends: without a response, or with one whose body may not be text. -/
inductive Response where
  | httpError (message : String)
  | reply (success : Bool) (body : Option String)

/-- What one call finds. -/
structure PricingCall where
  now : ℚ
  ttlSeconds : ℚ
  response : Response
  write : WriteOutcome

namespace Disk

/-- A failed write leaves its temporary file unless that is removed. -/
def abandon (disk : Disk) (written : String) (unlinked : Bool) : Disk :=
  if unlinked then disk else { disk with temps := written :: disk.temps }

/-- The disk after a write of the text, and whether it succeeds. -/
def writeCacheAtomic (disk : Disk) (text : String) : WriteOutcome → Disk × Bool
  | .uncreated => (disk, false)
  | .undumped written unlinked => (disk.abandon written unlinked, false)
  | .unreplaced unlinked => (disk.abandon text unlinked, false)
  | .replaced mtime => ({ disk with cache := some ⟨text, mtime⟩ }, true)

end Disk

section Calls

variable (json : JsonText) (validate : Json → Option ModelPricing)

/-- `response.json()` of a successful response; everything else raises what the call handles. -/
def PricingCall.download (call : PricingCall) : Except DownloadError Json :=
  match call.response with
  | .httpError message => .error (.handled message)
  | .reply false _ => .error (.handled "error status")
  | .reply true body =>
    match body.bind json.loads with
    | none => .error (.handled "no JSON")
    | some raw => .ok raw

/-- What the cache holds: nothing without a file, and nothing where its text is no JSON. -/
def Disk.load (disk : Disk) : PricingMap :=
  match disk.cache.bind fun file => json.loads file.text with
  | some raw => parsePricingMap validate raw
  | none => .empty

/-- The part of the call that needs the network. -/
def downloadToDisk (disk : Disk) (call : PricingCall) : Disk × PricingMap :=
  match call.download json with
  | .error _ => (disk, disk.load json validate)
  | .ok raw =>
    let pricingMap := parsePricingMap validate raw
    if pricingMap.nonEmpty then ((disk.writeCacheAtomic (json.dumps raw) call.write).1, pricingMap)
    else (disk, disk.load json validate)

/-- The disk after the call, and what the call returns. -/
def fetchPricingOnDisk (disk : Disk) (call : PricingCall) : Disk × PricingMap :=
  match disk.cache with
  | none => downloadToDisk json validate disk call
  | some file =>
    if call.now - file.mtime < call.ttlSeconds then (disk, disk.load json validate)
    else downloadToDisk json validate disk call

end Calls

end CliproxyUsage
