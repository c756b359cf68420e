import CliproxyUsage.Machine.Core.Run
import CliproxyUsage.Model.Pricing
import CliproxyUsage.Python.Json

/-! # Fetching the price list

One call of `fetch_pricing`, with what the clock, the disk and the network give it, and the server that
keeps its result in memory: a call at startup, and one in each round of the refresh loop. `validate` is the
validation of one entry by pydantic.
-/

namespace CliproxyUsage

open Python

namespace PricingMap

/-- `pricing[key] = value`. -/
def set (pricing : PricingMap) (key : String) (value : ModelPricing) : PricingMap :=
  if known : key ∈ pricing.entries.map Prod.fst then
    ⟨pricing.entries.map fun entry => if entry.1 = key then (key, value) else entry, by
      have keys : (pricing.entries.map fun entry => if entry.1 = key then (key, value) else entry).map Prod.fst =
          pricing.entries.map Prod.fst := by
        rw [List.map_map]
        refine List.map_congr_left fun entry _ => ?_
        by_cases same : entry.1 = key <;> simp [same]
      rw [keys]
      exact pricing.uniqueKeys⟩
  else
    ⟨pricing.entries ++ [(key, value)], by
      rw [List.map_append, List.nodup_append]
      refine ⟨pricing.uniqueKeys, List.nodup_singleton _, ?_⟩
      rintro k stored k' last rfl
      exact known (by simpa [List.mem_singleton.mp last] using stored)⟩

end PricingMap

/-- The cache file: the JSON that it holds, if it holds any, and its modification time. -/
structure CacheFile where
  raw : Option Json
  mtime : ℚ

/-- How a download ends that gives no JSON value. -/
inductive DownloadError where
  /-- An `httpx.HTTPError`, an `httpx.InvalidURL` or a `ValueError`. -/
  | handled (message : String)
  | other (message : String)

/-- What one call finds. -/
structure Fetch where
  now : ℚ
  /-- `exists()` finds a cache file that is there; it takes an `OSError` for no. -/
  found : Bool
  stat : Except String Unit
  /-- The read of the cache file succeeds. -/
  reads : Bool
  download : Except DownloadError Json
  /-- `exists()` finds a cache file that is there, when it asks again after a failed download. -/
  foundAgain : Bool
  /-- The write of the cache file succeeds, at this time. -/
  writes : Option ℚ

section Fetching

variable (validate : Json → Option ModelPricing) (ttlSeconds : ℚ)

/-- Invalid entries are dropped. -/
def parsePricingMap : Json → PricingMap
  | .dict members => members.foldl (fun result entry => match validate entry.2 with
    | some pricing => result.set entry.1 pricing
    | none => result) .empty
  | _ => .empty

/-- Nothing on any error. -/
def loadCache (cached : CacheFile) (fetch : Fetch) : PricingMap :=
  if fetch.reads then
    match cached.raw with
    | some raw => parsePricingMap validate raw
    | none => .empty
  else .empty

/-- A failed download falls back to the cache file, whatever its age. -/
def fallBack (file : Option CacheFile) (fetch : Fetch) : PricingMap :=
  match file with
  | some cached => if fetch.foundAgain then loadCache validate cached fetch else .empty
  | none => .empty

/-- The download, and the write of what it gives. -/
def downloadPricing (file : Option CacheFile) (fetch : Fetch) : Option CacheFile × Except String PricingMap :=
  match fetch.download with
  | .error (.other message) => (file, .error message)
  | .error (.handled _) => (file, .ok (fallBack validate file fetch))
  | .ok raw =>
    let pricingMap := parsePricingMap validate raw
    if pricingMap.nonEmpty then
      match fetch.writes with
      | some mtime => (some ⟨some raw, mtime⟩, .ok pricingMap)
      | none => (file, .ok pricingMap)
    else (file, .ok (fallBack validate file fetch))

/-- The cache file after the call, and what the call returns or raises. -/
def fetchPricing (file : Option CacheFile) (fetch : Fetch) : Option CacheFile × Except String PricingMap :=
  match file with
  | none => downloadPricing validate file fetch
  | some cached =>
    if fetch.found then
      match fetch.stat with
      | .error message => (file, .error message)
      | .ok () =>
        if fetch.now - cached.mtime < ttlSeconds then (file, .ok (loadCache validate cached fetch))
        else downloadPricing validate file fetch
    else downloadPricing validate file fetch

/-- The cache file on the disk, and `app.state.pricing`. -/
structure PricingState where
  file : Option CacheFile
  pricing : PricingMap

/-- The lifespan starts with a fetch; an exception keeps the server from starting. -/
def startup (file : Option CacheFile) (fetch : Fetch) : Option PricingState :=
  match fetchPricing validate ttlSeconds file fetch with
  | (file, .ok pricing) => some ⟨file, pricing⟩
  | (_, .error _) => none

/-- One round of the refresh loop, which logs an exception and goes on. -/
def refresh (state : PricingState) (fetch : Fetch) : PricingState :=
  match fetchPricing validate ttlSeconds state.file fetch with
  | (file, .ok pricing) => ⟨file, pricing⟩
  | (file, .error _) => { state with file }

/-- Every round is possible. -/
def refreshStep (state : PricingState) (fetch : Fetch) : Option PricingState :=
  some (refresh validate ttlSeconds state fetch)

/-- The server after its startup and some rounds. -/
def serve (file : Option CacheFile) (first : Fetch) (rounds : List Fetch) : Option PricingState :=
  (startup validate ttlSeconds file first).bind fun server => Machine.run (refreshStep validate ttlSeconds) server rounds

end Fetching

end CliproxyUsage
