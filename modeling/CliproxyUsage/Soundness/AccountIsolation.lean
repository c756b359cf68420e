import CliproxyUsage.Proofs.QuotaSystem
import CliproxyUsage.Soundness.QuotaEnvelopes

/-! # One cache for all accounts

All accounts share one cache under concatenated keys, and the fetch of one caller serves others. A
lookup still returns only what was fetched for its own account, and a reset touches only the entry of
its account, when it succeeds.
-/

namespace CliproxyUsage.Quota

open Machine

/-- The provider id of the account is in the registry. -/
def Account.Known (account : Account) : Prop := (providers.lookup account.providerId).isSome

private theorem known_of_lookup {account : Account} {provider : Provider}
    (registered : providers.lookup account.providerId = some provider) : account.Known := by
  rw [Account.Known, registered]
  rfl

/-- Only the entry of one account is removed, and no fetch of another is touched. -/
structure RemovesOnly (account : Account) (before after : Quotas) : Prop where
  removed : after.store account.cacheKey = none
  entries : ∀ other : Account, other.Known → other ≠ account →
    after.store other.cacheKey = before.store other.cacheKey
  registrations : ∀ other : Account, other.Known → other ≠ account →
    after.inFlight other.cacheKey = before.inFlight other.cacheKey ∧
    after.generations other.cacheKey = before.generations other.cacheKey
  fetches : after.futures = before.futures ∧ after.calls = before.calls

/-- Concatenated keys tell the accounts of known providers apart. -/
theorem cacheKey_injective {account other : Account} (known : account.Known) (known' : other.Known)
    (same : account.cacheKey = other.cacheKey) : account = other := by
  obtain ⟨providerId, authName⟩ := account
  obtain ⟨providerId', authName'⟩ := other
  have registered {name : String} (known : (providers.lookup name).isSome) : name = "claude" ∨ name = "codex" := by
    simp only [providers, List.lookup_cons, List.lookup_nil] at known
    split at known
    · next here => exact .inl (by simpa using here)
    · split at known
      · next here => exact .inr (by simpa using here)
      · cases known
  have text := congrArg String.toList same
  simp only [Account.cacheKey, Service.cacheKey, toString] at text
  rcases registered known with rfl | rfl
  · rcases registered known' with rfl | rfl
    · simpa [String.ext_iff] using text
    · simp at text
  · rcases registered known' with rfl | rfl
    · simp at text
    · simpa [String.ext_iff] using text

theorem invalidate_removesOnly {account : Account} (known : account.Known) (quotas : Quotas) :
    RemovesOnly account quotas (quotas.invalidate account.cacheKey) where
  removed := by simp [Cache.State.invalidate]
  entries other known' differ := by
    have keys : other.cacheKey ≠ account.cacheKey := fun same => differ (cacheKey_injective known' known same)
    simp [Cache.State.invalidate, keys]
  registrations other known' differ := by
    have keys : other.cacheKey ≠ account.cacheKey := fun same => differ (cacheKey_injective known' known same)
    simp [Cache.State.invalidate, keys]
  fetches := ⟨rfl, rfl⟩

variable {service : Service} {start : ℚ} {es : List Event} {e : Event} {s t : System}

/-- A step of a task that does not look up an envelope leaves the envelope cache alone, or ends a reset and
invalidates its account. -/
theorem step_not_looking (wired : Wired service start es s) (stepped : step service s e = some t) {task : ℕ}
    (own : e.task? = some task)
    (looks : ∀ account provider entry, t.tasks task ≠ some (.looking account provider entry)) :
    t.quotas = s.quotas ∨ ∃ account requestId, (∃ payload, s.tasks task = some (.resetting account requestId payload)) ∧
      t.tasks task = some (.returned account requestId) ∧ t.quotas = s.quotas.invalidate account.cacheKey := by
  have advanced {s' : System} (advances : Advances s' task t) : t.quotas = s'.quotas := by
    cases advances with
    | stays => rfl
    | looks entry listing => exact absurd (setTask_self ..) (looks _ _ _)
    | resets payload listing => rfl
    | raises error listing => rfl
  cases steps_of_step stepped with
  | unknown error absent => exact .inl rfl
  | begins authFiles absent known advances =>
    obtain rfl : _ = task := Option.some.inj own
    have same := advanced advances
    exact .inl same
  | list authFiles advances =>
    left
    rcases advances with rfl | ⟨other, call, advances⟩
    · rfl
    · obtain rfl : other = task := Option.some.inj (call.symm.trans own)
      have same := advanced advances
      exact same
  | returned looking produced moved =>
    obtain rfl : _ = task := Option.some.inj own
    exact absurd looking (looks _ _ _)
  | raised error looking moved =>
    obtain rfl : _ = task := Option.some.inj own
    exact absurd looking (looks _ _ _)
  | quota outside moved =>
    exfalso
    have idle {call : Cache.Call String QuotaResponse Raised} (running : s.quotas.calls task = some call) : False := by
      obtain ⟨account, provider, entry, looking⟩ := wired.looks task call running
      exact looks _ _ _ looking
    cases Cache.steps_of_step moved with
    | aborted running requested =>
      obtain rfl : _ = task := Option.some.inj own
      exact idle running
    | wake waiting done =>
      obtain rfl : _ = task := Option.some.inj own
      exact idle waiting
    | cancel call => cases own
    | begin_ absent => cases outside
    | fetched running => cases outside
    | failed running => cases outside
    | invalidate key => cases outside
    | tick forward => cases outside
  | succeeded resetting =>
    obtain rfl : _ = task := Option.some.inj own
    exact .inr ⟨_, _, ⟨_, resetting⟩, setTask_self .., rfl⟩
  | refused error resetting => exact .inl rfl
  | tick authFiles moved => cases own

/-- A settled task is what it was after every earlier step. -/
theorem settled_run {after : System} {i task : ℕ} {status : Task}
    (ran : run (step service) (System.start start) es = some s)
    (reached : run (step service) (System.start start) (es.take i) = some after)
    (now : after.tasks task = some status) (settled : status.Settled) : s.tasks task = some status := by
  rw [← List.take_append_drop i es, run_append, reached] at ran
  exact @run_invariant _ _ _ (fun s => s.tasks task = some status)
    (fun _ _ _ kept stepped => step_settled stepped kept settled) _ _ _ now ran

/-- The event at a position of the tape is a step of the task, from one state to the other. -/
def StepOf (service : Service) (start : ℚ) (es : List Event) (task : ℕ) (before after : System) : Prop :=
  ∃ (i : ℕ) (e : Event), es[i]? = some e ∧ e.task? = some task ∧
    run (step service) (System.start start) (es.take i) = some before ∧
    run (step service) (System.start start) (es.take (i + 1)) = some after

/-- A step of a task that ends without an envelope leaves the envelope cache alone, or ends its reset and
invalidates its account. -/
private theorem quotas_of_step (ran : run (step service) (System.start start) es = some s) {task : ℕ} {ended : Task}
    (now : s.tasks task = some ended) (other : ∀ account provider entry, ended ≠ .looking account provider entry)
    {before after : System} (own : StepOf service start es task before after) :
    after.quotas = before.quotas ∨ ∃ account requestId, ended = .returned account requestId ∧
      after.tasks task = some ended ∧ account.Known ∧ after.quotas = before.quotas.invalidate account.cacheKey := by
  obtain ⟨i, e, here, task_, reached, reached'⟩ := own
  have stepped := (run_take_succ here reached).mp reached'
  have settles {status : Task} (then_ : after.tasks task = some status) (settled : status.Settled) : status = ended :=
    Option.some.inj ((settled_run ran reached' then_ settled).symm.trans now)
  have looks : ∀ account provider entry, after.tasks task ≠ some (.looking account provider entry) := by
    intro account provider entry looking
    exact other account provider entry (settles looking trivial).symm
  rcases step_not_looking (wired_run reached) stepped task_ looks with
    same | ⟨account, requestId, ⟨payload, resetting⟩, returned, invalidated⟩
  · exact .inl same
  · obtain rfl := settles returned trivial
    obtain ⟨provider, registered⟩ := (wired_run reached).registered task _ resetting
    exact .inr ⟨account, requestId, rfl, returned, known_of_lookup registered, invalidated⟩

/-- A reset that returned did so in a step of its own, which invalidated its account. -/
private theorem returned_run (ran : run (step service) (System.start start) es = some s) {task : ℕ} {account : Account}
    {requestId : String} (returned : s.tasks task = some (.returned account requestId)) :
    ∃ before after, StepOf service start es task before after ∧
      after.tasks task = some (.returned account requestId) ∧ account.Known ∧
      after.quotas = before.quotas.invalidate account.cacheKey := by
  revert returned
  refine run_trace (fun es s => s.tasks task = some (.returned account requestId) → ∃ before after,
    StepOf service start es task before after ∧ after.tasks task = some (.returned account requestId) ∧ account.Known ∧
      after.quotas = before.quotas.invalidate account.cacheKey) ?_ ?_ ran
  · intro returned
    cases returned
  · intro es middle e t reached held stepped returned
    rcases step_returned stepped returned with old | ⟨own, ⟨payload, resetting⟩, invalidated⟩
    · obtain ⟨before, after, ⟨i, e', here, own, first, second⟩, rest⟩ := held old
      have bound := (List.getElem?_eq_some_iff.mp here).1
      refine ⟨before, after, ⟨i, e', getElem?_concat.mpr (.inl here), own, ?_, ?_⟩, rest⟩
      · rwa [List.take_append_of_le_length bound.le]
      · rwa [List.take_append_of_le_length bound]
    · obtain ⟨provider, registered⟩ := (wired_run reached).registered task _ resetting
      refine ⟨middle, t, ⟨es.length, e, by simp, own, ?_, ?_⟩, returned, known_of_lookup registered, invalidated⟩
      · rwa [List.take_left']
        rfl
      · rw [List.take_of_length_le (by simp), run_concat]
        exact ⟨middle, reached, stepped⟩

/-- What the tasks of a run do to each other's accounts. -/
structure Isolated (service : Service) (start : ℚ) (es : List Event) (s : System) : Prop where
  /-- A returned envelope was made by a `_fetch_quota` of the run for the same provider and auth name. -/
  envelopes : ∀ task account provider entry via response, s.tasks task = some (.looking account provider entry) →
    s.quotas.calls task = some (.done via (.returned response)) →
    providers.lookup account.providerId = some provider ∧
    ∃ (i leader : ℕ) (client : Client) (clock : ℤ) (entry' : AuthFileEntry),
      es[i]? = some (.fetched leader client clock) ∧ s.tasks leader = some (.looking account provider entry') ∧
      service.fetchQuotaWith client clock provider account.authName entry' = .ok response
  /-- No step of a reset that raises changes the envelope cache. -/
  failed : ∀ task account requestId error, s.tasks task = some (.raised (.reset account requestId) error) →
    ∀ before after, StepOf service start es task before after → after.quotas = before.quotas
  /-- One step of a reset that returns removes the entry of its account, and no other step changes the cache. -/
  succeeded : ∀ task account requestId, s.tasks task = some (.returned account requestId) →
    (∃ before after, StepOf service start es task before after ∧
      after.tasks task = some (.returned account requestId) ∧ RemovesOnly account before.quotas after.quotas) ∧
    ∀ before after, StepOf service start es task before after →
      after.tasks task = some (.returned account requestId) ∧ RemovesOnly account before.quotas after.quotas ∨
        after.quotas = before.quotas

/-- In every run of `get_quota` and `reset_quota` tasks over any accounts, in any order of their steps, every
envelope belongs to the account that it is returned for, and resets stay with their account. -/
theorem accounts_are_isolated {service : Service} {start : ℚ} {es : List Event} {s : System}
    (ran : run (step service) (System.start start) es = some s) : Isolated service start es s := by
  have wired := wired_run ran
  have traced := Cache.traced_run wired.ran
  constructor
  case envelopes =>
    intro task account provider entry via response looking done
    have registered : providers.lookup account.providerId = some provider := wired.registered task _ looking
    refine ⟨registered, ?_⟩
    obtain ⟨⟨b, key, ttl, called, a, ttl', began, _⟩, j, fetched⟩ := traced.done task via response done
    obtain ⟨account₁, provider₁, entry₁, looking₁, key₁⟩ := wired.keys b task key ttl called
    obtain ⟨account₂, provider₂, entry₂, looking₂, key₂⟩ := wired.keys a via.fetch key ttl' began
    rw [looking] at looking₁
    cases looking₁
    have registered₂ : providers.lookup account₂.providerId = some provider₂ := wired.registered _ _ looking₂
    have same : account = account₂ :=
      cacheKey_injective (known_of_lookup registered) (known_of_lookup registered₂) (key₁.symm.trans key₂)
    subst same
    obtain ⟨i, client, clock, account₃, provider₃, entry₃, ended, looking₃, produced⟩ :=
      wired.produced j via.fetch response fetched
    rw [looking₂] at looking₃
    cases looking₃
    rw [registered] at registered₂
    cases registered₂
    exact ⟨i, via.fetch, client, clock, entry₂, ended, looking₂, produced⟩
  case failed =>
    intro task account requestId error raised before after own
    rcases quotas_of_step ran raised nofun own with same | ⟨_, _, ended, _⟩
    · exact same
    · cases ended
  case succeeded =>
    intro task account requestId returned
    constructor
    · obtain ⟨before, after, own, now, known, invalidated⟩ := returned_run ran returned
      refine ⟨before, after, own, now, ?_⟩
      rw [invalidated]
      exact invalidate_removesOnly known _
    · intro before after own
      rcases quotas_of_step ran returned nofun own with same | ⟨_, _, ended, now, known, invalidated⟩
      · exact .inr same
      · cases ended
        refine .inl ⟨now, ?_⟩
        rw [invalidated]
        exact invalidate_removesOnly known _

/-- A lookup leads, a lookup of the same account joins it, a reset is refused, and another one succeeds. -/
def sharedTape : List Event :=
  [.begin_ 0 (.get ⟨"codex", "codex.json"⟩), .list (.fetched 0 [codexEntry]), .begin_ 1 (.get ⟨"codex", "codex.json"⟩),
    .begin_ 2 (.reset ⟨"codex", "codex.json"⟩ "first"), .begin_ 3 (.reset ⟨"codex", "codex.json"⟩ "second"),
    .answered 2 (.ok ⟨.int 409, .null⟩), .fetched 0 (codexService 1776950000).client 1776945600000000, .quota (.wake 1),
    .answered 3 (.ok ⟨.int 200, .null⟩)]

theorem accounts_are_isolated_shared :
    ∃ s, run (step (codexService 1776950000)) (System.start 0) sharedTape = some s ∧
      Isolated (codexService 1776950000) 0 sharedTape s := by
  have enabled : (run (step (codexService 1776950000)) (System.start 0) sharedTape).isSome := by decide +kernel
  exact ⟨_, (Option.some_get enabled).symm, accounts_are_isolated (Option.some_get enabled).symm⟩

end CliproxyUsage.Quota
