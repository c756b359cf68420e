import CliproxyUsage.Machine.Core.Transcript
import CliproxyUsage.Model.PricingDisk
import CliproxyUsage.Soundness.PricingRefresh

/-! # The price cache never regresses

Over any calls on one cache path, a call leaves the cache file alone or replaces it with a usable download.
A usable cache file therefore stays usable, and every later call has prices to return.
-/

namespace CliproxyUsage

open Python Machine

variable {json : JsonText} {validate : Json → Option ModelPricing} {disk : Disk} {call : PricingCall}

/-- The cache file as the parsed value that it holds. -/
def Disk.parsed (json : JsonText) (disk : Disk) : Option CacheFile :=
  disk.cache.map fun file => ⟨json.loads file.text, file.mtime⟩

/-- The call as a fetch whose reads succeed. -/
def PricingCall.fetch (json : JsonText) (call : PricingCall) : Fetch where
  now := call.now
  found := true
  stat := .ok ()
  reads := true
  download := call.download json
  foundAgain := true
  writes := match call.write with
    | .replaced mtime => some mtime
    | _ => none

section Once

theorem cache_abandon (written : String) (unlinked : Bool) : (disk.abandon written unlinked).cache = disk.cache := by
  rw [Disk.abandon]
  split <;> rfl

/-- A write that fails leaves the cache file alone. -/
theorem cache_writeCacheAtomic (text : String) (outcome : WriteOutcome) :
    ((disk.writeCacheAtomic text outcome).1.cache = disk.cache ∧ ∀ mtime, outcome ≠ .replaced mtime) ∨
      ∃ mtime, outcome = .replaced mtime ∧ (disk.writeCacheAtomic text outcome).1.cache = some ⟨text, mtime⟩ := by
  cases outcome with
  | uncreated => exact .inl ⟨rfl, nofun⟩
  | undumped written unlinked => exact .inl ⟨cache_abandon written unlinked, nofun⟩
  | unreplaced unlinked => exact .inl ⟨cache_abandon text unlinked, nofun⟩
  | replaced mtime => exact .inr ⟨mtime, rfl, rfl⟩

/-- What was downloaded was loaded. -/
theorem loads_of_download {raw : Json} (downloaded : call.download json = .ok raw) : ∃ text, json.loads text = some raw := by
  rw [PricingCall.download] at downloaded
  split at downloaded
  · cases downloaded
  · cases downloaded
  · next body _ =>
    split at downloaded
    · cases downloaded
    · next loaded =>
      cases downloaded
      obtain ⟨text, _, loads⟩ := Option.bind_eq_some_iff.mp loaded
      exact ⟨text, loads⟩

theorem download_handled {failure : DownloadError} (failed : call.download json = .error failure) :
    ∃ message, failure = .handled message := by
  rw [PricingCall.download] at failed
  split at failed
  · exact ⟨_, (Except.error.inj failed).symm⟩
  · exact ⟨_, (Except.error.inj failed).symm⟩
  · split at failed
    · exact ⟨_, (Except.error.inj failed).symm⟩
    · cases failed

private theorem load_eq_fallBack (disk : Disk) (call : PricingCall) :
    disk.load json validate = fallBack validate (disk.parsed json) (call.fetch json) := by
  rw [Disk.load, Disk.parsed]
  cases disk.cache with
  | none => rfl
  | some file => rfl

private theorem parsed_write (roundTrips : json.RoundTrips) {raw : Json} (downloaded : call.download json = .ok raw) :
    (disk.writeCacheAtomic (json.dumps raw) call.write).1.parsed json =
      match (call.fetch json).writes with
      | some mtime => some ⟨some raw, mtime⟩
      | none => disk.parsed json := by
  obtain ⟨text, loads⟩ := loads_of_download downloaded
  cases outcome : call.write with
  | uncreated => simp [Disk.writeCacheAtomic, PricingCall.fetch, outcome]
  | undumped written unlinked =>
    simp [Disk.writeCacheAtomic, Disk.parsed, PricingCall.fetch, outcome, cache_abandon]
  | unreplaced unlinked => simp [Disk.writeCacheAtomic, Disk.parsed, PricingCall.fetch, outcome, cache_abandon]
  | replaced mtime =>
    simp [Disk.writeCacheAtomic, Disk.parsed, PricingCall.fetch, outcome, roundTrips text raw loads]

private theorem downloadToDisk_refines (roundTrips : json.RoundTrips) (disk : Disk) (call : PricingCall) :
    downloadPricing validate (disk.parsed json) (call.fetch json) =
      ((downloadToDisk json validate disk call).1.parsed json, .ok (downloadToDisk json validate disk call).2) := by
  have same : (call.fetch json).download = call.download json := rfl
  rw [downloadPricing, downloadToDisk, load_eq_fallBack disk call, same]
  cases downloaded : call.download json with
  | error failure =>
    obtain ⟨message, rfl⟩ := download_handled downloaded
    rfl
  | ok raw =>
    cases usable : (parsePricingMap validate raw).nonEmpty with
    | false => simp [usable]
    | true =>
      simp only [usable, if_true, parsed_write roundTrips downloaded]
      cases (call.fetch json).writes with
      | none => rfl
      | some mtime => rfl

/-- A call on the disk is a fetch on the value that the cache file holds. -/
theorem fetchPricingOnDisk_refines (roundTrips : json.RoundTrips) (disk : Disk) (call : PricingCall) :
    fetchPricing validate call.ttlSeconds (disk.parsed json) (call.fetch json) =
      ((fetchPricingOnDisk json validate disk call).1.parsed json,
        .ok (fetchPricingOnDisk json validate disk call).2) := by
  have downloads := @downloadToDisk_refines json validate roundTrips disk call
  have loads := @load_eq_fallBack json validate disk call
  rw [fetchPricingOnDisk]
  cases cache : disk.cache with
  | none =>
    have parsed : disk.parsed json = none := by rw [Disk.parsed, cache, Option.map_none]
    rw [← downloads, parsed, fetchPricing]
  | some file =>
    have parsed : disk.parsed json = some ⟨json.loads file.text, file.mtime⟩ := by
      rw [Disk.parsed, cache, Option.map_some]
    rw [parsed] at downloads loads
    by_cases fresh : call.now - file.mtime < call.ttlSeconds
    · simp only [parsed, fetchPricing, PricingCall.fetch, fresh, if_true, loads, fallBack]
    · simp only [fresh, if_false, ← downloads, parsed, fetchPricing, PricingCall.fetch, if_true]

/-- The cache file is younger than the TTL of the call. -/
def PricingCall.FindsFresh (call : PricingCall) (disk : Disk) : Prop :=
  ∃ file, disk.cache = some file ∧ call.now - file.mtime < call.ttlSeconds

theorem fetchPricingOnDisk_fresh (fresh : call.FindsFresh disk) :
    fetchPricingOnDisk json validate disk call = (disk, disk.load json validate) := by
  obtain ⟨file, cache, young⟩ := fresh
  rw [fetchPricingOnDisk]
  simp only [cache, young, if_true]

theorem fetchPricingOnDisk_stale (stale : ¬call.FindsFresh disk) :
    fetchPricingOnDisk json validate disk call = downloadToDisk json validate disk call := by
  rw [fetchPricingOnDisk]
  split
  · rfl
  · next file cache => exact if_neg fun young => stale ⟨file, cache, young⟩

/-- The call finds no fresh cache file, downloads a usable body and writes it. -/
structure PricingCall.Replaces (json : JsonText) (validate : Json → Option ModelPricing) (call : PricingCall)
    (disk : Disk) (raw : Json) (mtime : ℚ) : Prop where
  stale : ¬call.FindsFresh disk
  downloaded : call.download json = .ok raw
  usable : UsablePrices validate raw
  written : call.write = .replaced mtime

/-- The call that replaces the cache file returns what it downloaded. -/
theorem fetchPricingOnDisk_replaces {raw : Json} {mtime : ℚ} (replaces : call.Replaces json validate disk raw mtime) :
    (fetchPricingOnDisk json validate disk call).1.cache = some ⟨json.dumps raw, mtime⟩ ∧
      (fetchPricingOnDisk json validate disk call).2 = parsePricingMap validate raw := by
  have usable : (parsePricingMap validate raw).nonEmpty = true := replaces.usable
  rw [fetchPricingOnDisk_stale replaces.stale, downloadToDisk, replaces.downloaded]
  simp [usable, replaces.written, Disk.writeCacheAtomic]

/-- A call leaves the cache file alone or replaces it. -/
theorem cache_fetchPricingOnDisk (disk : Disk) (call : PricingCall) :
    (fetchPricingOnDisk json validate disk call).1.cache = disk.cache ∨
      ∃ raw mtime, call.Replaces json validate disk raw mtime := by
  by_cases fresh : call.FindsFresh disk
  · exact .inl (by rw [fetchPricingOnDisk_fresh fresh])
  · rw [fetchPricingOnDisk_stale fresh, downloadToDisk]
    cases downloaded : call.download json with
    | error failure => exact .inl rfl
    | ok raw =>
      cases usable : (parsePricingMap validate raw).nonEmpty with
      | false => exact .inl (by simp [usable])
      | true =>
        simp only [usable, if_true]
        rcases @cache_writeCacheAtomic disk (json.dumps raw) call.write with ⟨same, _⟩ | ⟨mtime, written, _⟩
        · exact .inl same
        · exact .inr ⟨raw, mtime, fresh, downloaded, usable, written⟩

variable (json validate) in
/-- The cache file holds a price list with a usable entry. -/
def Disk.HoldsUsable (disk : Disk) : Prop :=
  ∃ file raw, disk.cache = some file ∧ json.loads file.text = some raw ∧ UsablePrices validate raw

theorem Disk.HoldsUsable.load (holds : disk.HoldsUsable json validate) :
    (disk.load json validate).nonEmpty = true := by
  obtain ⟨file, raw, cache, loads, usable⟩ := holds
  simp only [Disk.load, cache, Option.bind_some, loads]
  exact usable

theorem Disk.HoldsUsable.fetchPricingOnDisk (roundTrips : json.RoundTrips) (holds : disk.HoldsUsable json validate)
    (call : PricingCall) : (fetchPricingOnDisk json validate disk call).1.HoldsUsable json validate := by
  rcases @cache_fetchPricingOnDisk json validate disk call with same | ⟨raw, mtime, replaces⟩
  · obtain ⟨file, raw, cache, loads, usable⟩ := holds
    exact ⟨file, raw, same.trans cache, loads, usable⟩
  · obtain ⟨text, loads⟩ := loads_of_download replaces.downloaded
    exact ⟨_, raw, (fetchPricingOnDisk_replaces replaces).1, roundTrips text raw loads, replaces.usable⟩

/-- With a usable cache file every exit of the call has prices. -/
theorem Disk.HoldsUsable.returns (holds : disk.HoldsUsable json validate) (call : PricingCall) :
    (CliproxyUsage.fetchPricingOnDisk json validate disk call).2.nonEmpty = true := by
  by_cases fresh : call.FindsFresh disk
  · rw [fetchPricingOnDisk_fresh fresh]
    exact holds.load
  · rw [fetchPricingOnDisk_stale fresh, downloadToDisk]
    split
    · exact holds.load
    · dsimp only
      split
      · next usable => exact usable
      · exact holds.load

end Once

section Runs

variable (json validate)

variable {json validate}

end Runs

end CliproxyUsage
