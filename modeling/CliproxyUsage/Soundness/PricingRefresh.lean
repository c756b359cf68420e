import CliproxyUsage.Machine.Core.Run
import CliproxyUsage.Model.PricingFetch

/-! # Prices in memory over the refreshes

A refresh overwrites the prices in memory with whatever the fetch returns, and a fetch that fails without
a usable cache file returns nothing. Working prices are lost exactly in such a round.
-/

namespace CliproxyUsage

open Python Machine

variable (validate : Json → Option ModelPricing) (ttlSeconds : ℚ)

/-- Some entry of the price list is valid. -/
def UsablePrices (raw : Json) : Prop := (parsePricingMap validate raw).nonEmpty = true

/-- The cache file is there, can be read, and holds a usable price list. -/
def CacheUsable (file : Option CacheFile) (fetch : Fetch) : Prop :=
  fetch.reads = true ∧ ∃ cached raw, file = some cached ∧ cached.raw = some raw ∧ UsablePrices validate raw

/-- The cache file is younger than the TTL. -/
def CacheFresh (file : Option CacheFile) (fetch : Fetch) : Prop :=
  ∃ cached, file = some cached ∧ fetch.now - cached.mtime < ttlSeconds

/-- The download fails with a handled error, or gives no usable price list. -/
def DownloadFails (fetch : Fetch) : Prop :=
  match fetch.download with
  | .error (.handled _) => True
  | .error (.other _) => False
  | .ok raw => ¬UsablePrices validate raw

/-- The call finds a fresh cache file and asks no one else. -/
def ReliesOnCache (file : Option CacheFile) (fetch : Fetch) : Prop :=
  fetch.found = true ∧ fetch.stat = .ok () ∧ CacheFresh ttlSeconds file fetch

/-- The call goes to the network: it finds no cache file, or one that is not fresh. -/
def GoesOnline (file : Option CacheFile) (fetch : Fetch) : Prop :=
  file = none ∨ fetch.found = false ∨ fetch.stat = .ok () ∧ ¬CacheFresh ttlSeconds file fetch

/-- The round finds no usable cache file where it relies on it, or after a failed download. -/
def Discards (state : PricingState) (fetch : Fetch) : Prop :=
  state.pricing.nonEmpty = true ∧
    (ReliesOnCache ttlSeconds state.file fetch ∧ ¬CacheUsable validate state.file fetch ∨
      GoesOnline ttlSeconds state.file fetch ∧ DownloadFails validate fetch ∧
        ¬(fetch.foundAgain = true ∧ CacheUsable validate state.file fetch))

variable {validate} {ttlSeconds}

theorem empty_nonEmpty : PricingMap.empty.nonEmpty = false := rfl

private theorem loadCache_nonEmpty {cached : CacheFile} {fetch : Fetch} :
    (loadCache validate cached fetch).nonEmpty = true ↔ CacheUsable validate (some cached) fetch := by
  rw [loadCache, CacheUsable]
  cases fetch.reads with
  | false => simp [empty_nonEmpty]
  | true =>
    cases stored : cached.raw with
    | none => simp [empty_nonEmpty, stored]
    | some raw => simp [UsablePrices, stored]

private theorem fallBack_nonEmpty {file : Option CacheFile} {fetch : Fetch} :
    (fallBack validate file fetch).nonEmpty = true ↔ fetch.foundAgain = true ∧ CacheUsable validate file fetch := by
  cases file with
  | none => simp [fallBack, empty_nonEmpty, CacheUsable]
  | some cached =>
    rw [fallBack, ← loadCache_nonEmpty]
    cases fetch.foundAgain <;> simp [empty_nonEmpty]

/-- A download gives a usable price list, or raises, or falls back to the cache file. -/
private theorem downloadPricing_discards_iff {file : Option CacheFile} {fetch : Fetch} :
    (∃ pricing, (downloadPricing validate file fetch).2 = .ok pricing ∧ pricing.nonEmpty = false) ↔
      DownloadFails validate fetch ∧ ¬(fetch.foundAgain = true ∧ CacheUsable validate file fetch) := by
  rw [← fallBack_nonEmpty, Bool.not_eq_true, downloadPricing, DownloadFails]
  cases fetch.download with
  | error failure =>
    cases failure with
    | handled message => simp
    | other message => simp
  | ok raw =>
    cases usable : (parsePricingMap validate raw).nonEmpty with
    | false => simp [UsablePrices, usable]
    | true => cases fetch.writes <;> simp [UsablePrices, usable]

/-- A fetch gives an empty price list where it relies on a cache file that is not usable. -/
private theorem fetchPricing_discards_iff {file : Option CacheFile} {fetch : Fetch} :
    (∃ pricing, (fetchPricing validate ttlSeconds file fetch).2 = .ok pricing ∧ pricing.nonEmpty = false) ↔
      ReliesOnCache ttlSeconds file fetch ∧ ¬CacheUsable validate file fetch ∨
        GoesOnline ttlSeconds file fetch ∧ DownloadFails validate fetch ∧
          ¬(fetch.foundAgain = true ∧ CacheUsable validate file fetch) := by
  cases file with
  | none =>
    rw [fetchPricing, downloadPricing_discards_iff]
    simp [ReliesOnCache, GoesOnline, CacheFresh]
  | some cached =>
    rw [fetchPricing, ReliesOnCache, GoesOnline]
    cases fetch.found with
    | false => simp [downloadPricing_discards_iff]
    | true =>
      cases fetch.stat with
      | error message => simp
      | ok done =>
        by_cases fresh : fetch.now - cached.mtime < ttlSeconds
        · simp [fresh, CacheFresh, ← loadCache_nonEmpty]
        · simp only [fresh, if_true, if_false, downloadPricing_discards_iff]
          simp [CacheFresh, fresh]

/-- A round keeps working prices unless it discards them. -/
theorem refresh_nonEmpty_iff {state : PricingState} {fetch : Fetch} (working : state.pricing.nonEmpty = true) :
    (refresh validate ttlSeconds state fetch).pricing.nonEmpty = true ↔ ¬Discards validate ttlSeconds state fetch := by
  have discards := @fetchPricing_discards_iff validate ttlSeconds state.file fetch
  rw [Discards, ← discards, refresh]
  rcases fetchPricing validate ttlSeconds state.file fetch with ⟨file, result⟩
  cases result with
  | error message => simp [working]
  | ok pricing => simp [working]

/-- The disk serves every access to the cache file. -/
structure Reliable (fetch : Fetch) : Prop where
  found : fetch.found = true
  stat : fetch.stat = .ok ()
  reads : fetch.reads = true
  foundAgain : fetch.foundAgain = true
  writes : fetch.writes.isSome = true

variable (validate) in
/-- The prices in memory have a usable copy on the disk. -/
def Stored (state : PricingState) : Prop :=
  state.pricing.nonEmpty = true →
    ∃ cached raw, state.file = some cached ∧ cached.raw = some raw ∧ UsablePrices validate raw

private theorem stored_of_cacheUsable {file : Option CacheFile} {pricing : PricingMap} {fetch : Fetch}
    (usable : pricing.nonEmpty = true → CacheUsable validate file fetch) : Stored validate ⟨file, pricing⟩ := by
  intro working
  exact (usable working).2

private theorem downloadPricing_stored {file file' : Option CacheFile} {fetch : Fetch} {pricing : PricingMap}
    (reliable : Reliable fetch) (fetched : downloadPricing validate file fetch = (file', .ok pricing)) :
    Stored validate ⟨file', pricing⟩ := by
  rw [downloadPricing] at fetched
  split at fetched
  · cases fetched
  · cases fetched
    exact stored_of_cacheUsable fun working => (fallBack_nonEmpty.mp working).2
  · rename_i raw _
    obtain ⟨mtime, written⟩ := Option.isSome_iff_exists.mp reliable.writes
    simp only [written] at fetched
    split at fetched
    · rename_i usable
      cases fetched
      intro _
      exact ⟨_, raw, rfl, rfl, usable⟩
    · cases fetched
      exact stored_of_cacheUsable fun working => (fallBack_nonEmpty.mp working).2

private theorem downloadPricing_error {file file' : Option CacheFile} {fetch : Fetch} {message : String}
    (fetched : downloadPricing validate file fetch = (file', .error message)) : file' = file := by
  rw [downloadPricing] at fetched
  split at fetched
  · cases fetched
    rfl
  · cases fetched
  · dsimp only at fetched
    split at fetched
    · split at fetched <;> cases fetched
    · cases fetched

/-- A fetch that raises leaves the cache file as it is. -/
private theorem fetchPricing_error {file file' : Option CacheFile} {fetch : Fetch} {message : String}
    (fetched : fetchPricing validate ttlSeconds file fetch = (file', .error message)) : file' = file := by
  cases file with
  | none => exact downloadPricing_error fetched
  | some cached =>
    rw [fetchPricing] at fetched
    split at fetched
    · split at fetched
      · cases fetched
        rfl
      · split at fetched
        · cases fetched
        · exact downloadPricing_error fetched
    · exact downloadPricing_error fetched

private theorem fetchPricing_stored {file file' : Option CacheFile} {fetch : Fetch} {pricing : PricingMap}
    (reliable : Reliable fetch) (fetched : fetchPricing validate ttlSeconds file fetch = (file', .ok pricing)) :
    Stored validate ⟨file', pricing⟩ := by
  cases file with
  | none => exact downloadPricing_stored reliable fetched
  | some cached =>
    simp only [fetchPricing, reliable.found, reliable.stat, if_true] at fetched
    split at fetched
    · cases fetched
      exact stored_of_cacheUsable loadCache_nonEmpty.mp
    · exact downloadPricing_stored reliable fetched

private theorem refresh_stored {state : PricingState} {fetch : Fetch} (reliable : Reliable fetch)
    (stored : Stored validate state) : Stored validate (refresh validate ttlSeconds state fetch) := by
  rw [refresh]
  split
  · rename_i fetched
    exact fetchPricing_stored reliable fetched
  · rename_i fetched
    rw [fetchPricing_error fetched]
    exact stored

/-- With a reliable disk no round discards working prices, whatever the network does. -/
theorem undisturbed_of_reliable {file : Option CacheFile} {first : Fetch} {server : PricingState}
    (started : startup validate ttlSeconds file first = some server) {rounds : List Fetch}
    (reliable : ∀ fetch ∈ first :: rounds, Reliable fetch) :
    StepsMeet (refreshStep validate ttlSeconds) (fun state fetch => ¬Discards validate ttlSeconds state fetch)
      server rounds := by
  have initial : Stored validate server := by
    rw [startup] at started
    split at started
    · rename_i fetched
      cases started
      exact fetchPricing_stored (reliable first List.mem_cons_self) fetched
    · cases started
  intro i fetch middle here reached discards
  have meets : StepsMeet (refreshStep validate ttlSeconds) (fun _ fetch => Reliable fetch) server (rounds.take i) := by
    intro k fetch _ member _
    apply reliable fetch
    exact List.mem_cons_of_mem _ (List.mem_of_mem_take (List.mem_of_getElem? member))
  have stored : Stored validate middle := by
    refine run_trace_meeting (fun _ => Stored validate) initial ?_ meets reached
    rintro _ before fetch _ _ held reliable ⟨⟩
    exact refresh_stored reliable held
  have served : Reliable fetch := reliable fetch (List.mem_cons_of_mem _ (List.mem_of_getElem? here))
  have usable : CacheUsable validate middle.file fetch := ⟨served.reads, stored discards.1⟩
  rcases discards.2 with ⟨_, unusable⟩ | ⟨_, _, unusable⟩
  · exact unusable usable
  · exact unusable ⟨served.foundAgain, usable⟩

private theorem rounds_keep_pricing {server : PricingState} {rounds : List Fetch} :
    (∀ i j before after, i ≤ j →
      run (refreshStep validate ttlSeconds) server (rounds.take i) = some before →
      run (refreshStep validate ttlSeconds) server (rounds.take j) = some after →
      before.pricing.nonEmpty = true → after.pricing.nonEmpty = true) ↔
    StepsMeet (refreshStep validate ttlSeconds) (fun state fetch => ¬Discards validate ttlSeconds state fetch)
      server rounds := by
  refine (kept_iff_stepsMeet (P := fun state : PricingState => state.pricing.nonEmpty = true)).trans
    (stepsMeet_congr ?_)
  intro state fetch
  constructor
  · intro keeps discards
    exact (refresh_nonEmpty_iff discards.1).mp (keeps discards.1 _ rfl) discards
  · rintro undisturbed working next ⟨⟩
    exact (refresh_nonEmpty_iff working).mpr undisturbed

/-- Once the server has working prices it keeps working prices, exactly when no round discards them. -/
theorem refreshes_keep_pricing (validate : Json → Option ModelPricing) (ttlSeconds : ℚ) (file : Option CacheFile)
    (first : Fetch) (rounds : List Fetch) :
    (∀ i j before after, i ≤ j →
      serve validate ttlSeconds file first (rounds.take i) = some before →
      serve validate ttlSeconds file first (rounds.take j) = some after →
      before.pricing.nonEmpty = true → after.pricing.nonEmpty = true) ↔
    ∀ server, startup validate ttlSeconds file first = some server →
      StepsMeet (refreshStep validate ttlSeconds) (fun state fetch => ¬Discards validate ttlSeconds state fetch)
        server rounds := by
  simp only [serve]
  cases started : startup validate ttlSeconds file first with
  | none => simp
  | some server =>
    simp only [Option.bind_some, Option.some.injEq, forall_eq']
    exact rounds_keep_pricing

/-- The validation of an entry that holds the two required rates and nothing else. -/
def requiredRates : Json → Option ModelPricing
  | .dict [("input_cost_per_token", .float (.finite input)), ("output_cost_per_token", .float (.finite output))] =>
    some { inputCostPerToken := input, outputCostPerToken := output }
  | _ => none

def servedPrices : Json :=
  .dict [("claude-t", .dict [("input_cost_per_token", .float (.finite (3 / 1000000))),
    ("output_cost_per_token", .float (.finite (15 / 1000000)))])]

/-- The startup downloads the prices and cannot write the cache file. -/
def unwrittenStartup : Fetch :=
  { now := 0, found := true, stat := .ok (), reads := true, download := .ok servedPrices, foundAgain := true,
    writes := none }

/-- The first round comes while the network is down. -/
def offlineRound : Fetch :=
  { now := 86400, found := true, stat := .ok (), reads := true, download := .error (.handled "connection failed"),
    foundAgain := true, writes := some 86400 }

/-- The download fails in a round without a cache file, and the working prices are gone. -/
theorem refresh_loses_prices :
    ¬∀ i j before after, i ≤ j →
      serve requiredRates 86400 none unwrittenStartup ([offlineRound].take i) = some before →
      serve requiredRates 86400 none unwrittenStartup ([offlineRound].take j) = some after →
      before.pricing.nonEmpty = true → after.pricing.nonEmpty = true := by
  intro kept
  have lost : PricingMap.empty.nonEmpty = true := kept 0 1 _ ⟨none, .empty⟩ (Nat.zero_le 1) rfl rfl rfl
  exact Bool.false_ne_true lost

end CliproxyUsage
