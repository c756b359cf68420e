import CliproxyUsage.Model.QuotaSystem
import CliproxyUsage.Proofs.CacheTrace

/-! # What one step of the quota service can do

A step moves one task at most, and changes the envelope cache by one of the cache's own steps. What
any run leaves behind relates the tasks to the events of that cache: a call of the cache belongs to a
lookup with the key of its account, and a value that a fetch returned was produced for its account.
-/

namespace CliproxyUsage.Quota

open Machine

variable {service : Service} {s t : System} {e : Event}

@[simp] theorem setTask_quotas (task : ℕ) (status : Task) : (s.setTask task status).quotas = s.quotas := rfl

@[simp] theorem setTask_log (task : ℕ) (status : Task) : (s.setTask task status).log = s.log := rfl

theorem setTask_self (task : ℕ) (status : Task) : (s.setTask task status).tasks task = some status :=
  Function.update_self ..

theorem setTask_of_ne {task other : ℕ} (differ : other ≠ task) (status : Task) :
    (s.setTask task status).tasks other = s.tasks other := Function.update_of_ne differ ..

/-- Where a task that awaited the list can be after it resumed. -/
inductive Advances (s : System) (task : ℕ) : System → Prop
  | stays : Advances s task s
  | looks {account : Account} {provider : Provider} (entry : AuthFileEntry)
      (listing : s.tasks task = some (.listing (.get account) provider)) :
      Advances s task
        { s.setTask task (.looking account provider entry) with
          quotas := s.quotas.getOrFetch task account.cacheKey Service.quotaTtl
          log := s.log ++ [.begin_ task account.cacheKey Service.quotaTtl] }
  | resets {account : Account} {requestId : String} {provider : Provider} (payload : ResetPayload)
      (listing : s.tasks task = some (.listing (.reset account requestId) provider)) :
      Advances s task (s.setTask task (.resetting account requestId payload))
  | raises {request : Request} {provider : Provider} (error : TaskError)
      (listing : s.tasks task = some (.listing request provider)) :
      Advances s task (s.setTask task (.raised request error))

theorem advances_advance (s : System) (task : ℕ) : Advances s task (s.advance service task) := by
  rw [System.advance]
  split
  · next request provider via outcome listing done =>
    split
    · exact .raises _ listing
    · split
      · exact .raises _ listing
      · next entry found =>
        cases request with
        | get account => exact .looks entry listing
        | reset account requestId =>
          rw [System.proceed]
          split
          · exact .resets _ listing
          · exact .raises _ listing
  · exact .stays

/-- The enabled steps, with what enables them and the state they lead to. -/
inductive Steps (service : Service) (s : System) : Event → System → Prop
  | unknown {task : ℕ} {request : Request} (error : TaskError) (absent : s.tasks task = none) :
      Steps service s (.begin_ task request) (s.setTask task (.raised request error))
  | begins {task : ℕ} {request : Request} {provider : Provider} {t : System} (authFiles : Lists)
      (absent : s.tasks task = none) (known : service.provider request.account.providerId = .ok provider)
      (advances : Advances { s.setTask task (.listing request provider) with authFiles } task t) :
      Steps service s (.begin_ task request) t
  | list {e : Cache.Event Unit (List AuthFileEntry) Raised} {t : System} (authFiles : Lists)
      (advances : { s with authFiles } = t ∨ ∃ task, e.call? = some task ∧ Advances { s with authFiles } task t) :
      Steps service s (.list e) t
  | returned {task : ℕ} {client : Client} {clock : ℤ} {account : Account} {provider : Provider} {entry : AuthFileEntry}
      {response : QuotaResponse} {quotas : Quotas} (looking : s.tasks task = some (.looking account provider entry))
      (produced : service.fetchQuotaWith client clock provider account.authName entry = .ok response)
      (stepped : Cache.step s.quotas (.fetched task response) = some quotas) :
      Steps service s (.fetched task client clock) { s with quotas, log := s.log ++ [.fetched task response] }
  | raised {task : ℕ} {client : Client} {clock : ℤ} {account : Account} {provider : Provider} {entry : AuthFileEntry}
      {quotas : Quotas} (error : Raised) (looking : s.tasks task = some (.looking account provider entry))
      (stepped : Cache.step s.quotas (.failed task error) = some quotas) :
      Steps service s (.fetched task client clock) { s with quotas, log := s.log ++ [.failed task error] }
  | quota {e : QuotaEvent} {quotas : Quotas} (outside : quotaEvent e = true)
      (stepped : Cache.step s.quotas e = some quotas) :
      Steps service s (.quota e) { s with quotas, log := s.log ++ [e] }
  | succeeded {task : ℕ} {account : Account} {requestId : String} {payload : ResetPayload} {response : ApiCallResponse}
      (resetting : s.tasks task = some (.resetting account requestId payload)) :
      Steps service s (.answered task (.ok response))
        { s.setTask task (.returned account requestId) with
          quotas := s.quotas.invalidate account.cacheKey
          log := s.log ++ [.invalidate account.cacheKey] }
  | refused {task : ℕ} {account : Account} {requestId : String} {payload : ResetPayload}
      {reply : Except (Cache.Exc Raised) ApiCallResponse} (error : TaskError)
      (resetting : s.tasks task = some (.resetting account requestId payload)) :
      Steps service s (.answered task reply) (s.setTask task (.raised (.reset account requestId) error))
  | tick {seconds : ℚ} {quotas : Quotas} (authFiles : Lists)
      (stepped : Cache.step s.quotas (.tick seconds) = some quotas) :
      Steps service s (.tick seconds) { s with authFiles, quotas, log := s.log ++ [.tick seconds] }

theorem steps_of_step (stepped : step service s e = some t) : Steps service s e t := by
  cases e with
  | begin_ task request =>
    simp only [step] at stepped
    split at stepped
    · next absent =>
      cases stepped
      rw [System.begin_]
      split
      · exact .unknown _ absent
      · next known => exact .begins _ absent known (advances_advance ..)
    · contradiction
  | list e =>
    simp only [step] at stepped
    split at stepped
    · obtain ⟨authFiles, _, rfl⟩ := Option.map_eq_some_iff.mp stepped
      apply Steps.list authFiles
      cases e.call? with
      | none => exact .inl rfl
      | some task => exact .inr ⟨task, rfl, advances_advance ..⟩
    · contradiction
  | fetched task client clock =>
    simp only [step] at stepped
    split at stepped
    · next looking =>
      split at stepped
      · next produced =>
        obtain ⟨quotas, moved, rfl⟩ := Option.map_eq_some_iff.mp stepped
        exact .returned looking produced moved
      · obtain ⟨quotas, moved, rfl⟩ := Option.map_eq_some_iff.mp stepped
        exact .raised _ looking moved
    · contradiction
  | quota e =>
    simp only [step] at stepped
    split at stepped
    · next outside =>
      obtain ⟨quotas, moved, rfl⟩ := Option.map_eq_some_iff.mp stepped
      exact .quota outside moved
    · contradiction
  | answered task reply =>
    simp only [step] at stepped
    split at stepped
    · next resetting =>
      cases stepped
      simp only [System.answered]
      split
      · exact .refused _ resetting
      · split
        · exact .succeeded resetting
        · exact .refused _ resetting
        · exact .refused _ resetting
        · exact .refused _ resetting
    · contradiction
  | tick seconds =>
    simp only [step, Option.bind_eq_bind, Option.bind_eq_some_iff] at stepped
    obtain ⟨authFiles, _, applied⟩ := stepped
    obtain ⟨quotas, moved, rfl⟩ := Option.map_eq_some_iff.mp applied
    exact .tick authFiles moved

/-- The task has gone as far as it does on its own. -/
def Task.Settled : Task → Prop
  | .looking _ _ _ | .returned _ _ | .raised _ _ => True
  | _ => False

theorem Advances.settled {task other : ℕ} {status : Task} (advances : Advances s task t)
    (now : s.tasks other = some status) (settled : status.Settled) : t.tasks other = some status := by
  have differ {request : Request} {provider : Provider} (listing : s.tasks task = some (.listing request provider)) :
      other ≠ task := by
    rintro rfl
    rw [listing] at now
    cases now
    exact settled
  cases advances with
  | stays => exact now
  | looks entry listing => exact (setTask_of_ne (differ listing) _).trans now
  | resets payload listing => exact (setTask_of_ne (differ listing) _).trans now
  | raises error listing => exact (setTask_of_ne (differ listing) _).trans now

/-- A reset returns only with the answer of the endpoint, and then invalidates its account. -/
theorem step_returned (stepped : step service s e = some t) {task : ℕ} {account : Account} {requestId : String}
    (now : t.tasks task = some (.returned account requestId)) :
    s.tasks task = some (.returned account requestId) ∨ e.task? = some task ∧
      (∃ payload, s.tasks task = some (.resetting account requestId payload)) ∧
      t.quotas = s.quotas.invalidate account.cacheKey := by
  have set_ {s' : System} {other : ℕ} {status : Task} (differ : ∀ account requestId, status ≠ .returned account requestId)
      (now : (s'.setTask other status).tasks task = some (.returned account requestId)) :
      s'.tasks task = some (.returned account requestId) := by
    by_cases same : task = other
    · subst same
      rw [setTask_self] at now
      exact absurd (Option.some.inj now) (differ account requestId)
    · rwa [setTask_of_ne same] at now
  have advanced {s' : System} {other : ℕ} (advances : Advances s' other t) :
      s'.tasks task = some (.returned account requestId) := by
    cases advances with
    | stays => exact now
    | looks entry listing => exact set_ (by simp) now
    | resets payload listing => exact set_ (by simp) now
    | raises error listing => exact set_ (by simp) now
  cases steps_of_step stepped with
  | unknown error absent => exact .inl (set_ (by simp) now)
  | begins authFiles absent known advances =>
    have before := advanced advances
    exact .inl (set_ (by simp) before)
  | list authFiles advances =>
    left
    rcases advances with rfl | ⟨other, _, advances⟩
    · exact now
    · have before := advanced advances
      exact before
  | returned looking produced moved => exact .inl now
  | raised error looking moved => exact .inl now
  | quota outside moved => exact .inl now
  | @succeeded other account' requestId' payload response resetting =>
    by_cases same : task = other
    · subst same
      rw [setTask_self] at now
      cases now
      exact .inr ⟨rfl, ⟨payload, resetting⟩, rfl⟩
    · rw [setTask_of_ne same] at now
      exact .inl now
  | refused error resetting => exact .inl (set_ (by simp) now)
  | tick authFiles moved => exact .inl now

/-- A settled task stays as it is. -/
theorem step_settled (stepped : step service s e = some t) {task : ℕ} {status : Task}
    (now : s.tasks task = some status) (settled : status.Settled) : t.tasks task = some status := by
  have absent_ne {other : ℕ} (absent : s.tasks other = none) : task ≠ other := by
    rintro rfl
    rw [absent] at now
    cases now
  have resetting_ne {other : ℕ} {account : Account} {requestId : String} {payload : ResetPayload}
      (resetting : s.tasks other = some (.resetting account requestId payload)) : task ≠ other := by
    rintro rfl
    rw [resetting] at now
    cases now
    exact settled
  cases steps_of_step stepped with
  | unknown error absent => exact (setTask_of_ne (absent_ne absent) _).trans now
  | begins authFiles absent known advances =>
    exact advances.settled ((setTask_of_ne (absent_ne absent) _).trans now) settled
  | list authFiles advances =>
    rcases advances with rfl | ⟨other, _, advances⟩
    · exact now
    · exact advances.settled now settled
  | returned looking produced moved => exact now
  | raised error looking moved => exact now
  | quota outside moved => exact now
  | succeeded resetting => exact (setTask_of_ne (resetting_ne resetting) _).trans now
  | refused error resetting => exact (setTask_of_ne (resetting_ne resetting) _).trans now
  | tick authFiles moved => exact now

/-- The provider of a task is the registered one. -/
def Task.Registered : Task → Prop
  | .listing request provider => providers.lookup request.account.providerId = some provider
  | .looking account provider _ => providers.lookup account.providerId = some provider
  | .resetting account _ _ => ∃ provider, providers.lookup account.providerId = some provider
  | _ => True

/-- What a tape says about the tasks and the events of the envelope cache. -/
structure Wired (service : Service) (start : ℚ) (es : List Event) (s : System) : Prop where
  ran : run Cache.step (Cache.State.start String QuotaResponse Raised start) s.log = some s.quotas
  looks : ∀ task status, s.quotas.calls task = some status →
    ∃ account provider entry, s.tasks task = some (.looking account provider entry)
  keys : ∀ (b : ℕ) task key ttl, s.log[b]? = some (.begin_ task key ttl) →
    ∃ account provider entry, s.tasks task = some (.looking account provider entry) ∧ key = account.cacheKey
  registered : ∀ task status, s.tasks task = some status → status.Registered
  produced : ∀ (j : ℕ) task response, s.log[j]? = some (.fetched task response) →
    ∃ (i : ℕ) (client : Client) (clock : ℤ) (account : Account) (provider : Provider) (entry : AuthFileEntry),
      es[i]? = some (.fetched task client clock) ∧
      s.tasks task = some (.looking account provider entry) ∧
      service.fetchQuotaWith client clock provider account.authName entry = .ok response

section Wired

variable {start : ℚ} {es : List Event}

/-- A change of the tasks that keeps the lookups, and adds only ones of known providers. -/
private theorem Wired.tasks (wired : Wired service start es s) {tasks : ℕ → Option Task} {authFiles : Lists}
    (kept : ∀ task account provider entry, s.tasks task = some (.looking account provider entry) →
      tasks task = some (.looking account provider entry))
    (registered : ∀ task status, tasks task = some status → status.Registered) :
    Wired service start es { s with authFiles, tasks } where
  ran := wired.ran
  looks task status now := by
    obtain ⟨account, provider, entry, looking⟩ := wired.looks task status now
    exact ⟨account, provider, entry, kept _ _ _ _ looking⟩
  keys b task key ttl here := by
    obtain ⟨account, provider, entry, looking, same⟩ := wired.keys b task key ttl here
    exact ⟨account, provider, entry, kept _ _ _ _ looking, same⟩
  registered := registered
  produced j task response here := by
    obtain ⟨i, client, clock, account, provider, entry, ended, looking, made⟩ := wired.produced j task response here
    exact ⟨i, client, clock, account, provider, entry, ended, kept _ _ _ _ looking, made⟩

/-- A step of the envelope cache, whose calls are lookups and whose values are produced. -/
private theorem Wired.log (wired : Wired service start es s) {qe : QuotaEvent} {quotas : Quotas}
    (moved : Cache.step s.quotas qe = some quotas)
    (calls : ∀ task key ttl, qe = .begin_ task key ttl →
      ∃ account provider entry, s.tasks task = some (.looking account provider entry) ∧ key = account.cacheKey)
    (made : ∀ task response, qe = .fetched task response →
      ∃ (i : ℕ) (client : Client) (clock : ℤ) (account : Account) (provider : Provider) (entry : AuthFileEntry),
        es[i]? = some (.fetched task client clock) ∧ s.tasks task = some (.looking account provider entry) ∧
        service.fetchQuotaWith client clock provider account.authName entry = .ok response) :
    Wired service start es { s with quotas, log := s.log ++ [qe] } where
  ran := run_concat.mpr ⟨s.quotas, wired.ran, moved⟩
  looks task status now := by
    have begun {key : String} {ttl : QuotaResponse → ℚ} (call : qe = .begin_ task key ttl) :
        ∃ account provider entry, s.tasks task = some (.looking account provider entry) := by
      obtain ⟨account, provider, entry, looking, _⟩ := calls task key ttl call
      exact ⟨account, provider, entry, looking⟩
    rcases Cache.step_calls moved now with old | moves
    · exact wired.looks task status old
    · cases moves with
      | hit => exact begun rfl
      | joined => exact begun rfl
      | joinedDone => exact begun rfl
      | led => exact begun rfl
      | returned running => exact wired.looks task _ running
      | spoiled running => exact wired.looks task _ running
      | failed running => exact wired.looks task _ running
      | aborted running => exact wired.looks task _ running
      | woken waiting => exact wired.looks task _ waiting
      | dropped waiting => exact wired.looks task _ waiting
  keys b task key ttl here := by
    rcases getElem?_concat.mp here with old | ⟨_, last⟩
    · exact wired.keys b task key ttl old
    · exact calls task key ttl last
  registered := wired.registered
  produced j task response here := by
    rcases getElem?_concat.mp here with old | ⟨_, last⟩
    · exact wired.produced j task response old
    · exact made task response last

private theorem Wired.later (wired : Wired service start es s) (e : Event) : Wired service start (es ++ [e]) s where
  ran := wired.ran
  looks := wired.looks
  keys := wired.keys
  registered := wired.registered
  produced j task response here := by
    obtain ⟨i, client, clock, account, provider, entry, ended, rest⟩ := wired.produced j task response here
    exact ⟨i, client, clock, account, provider, entry, getElem?_concat.mpr (.inl ended), rest⟩

/-- Setting a task that does not look up an envelope. -/
private theorem Wired.set (wired : Wired service start es s) {task : ℕ} {status : Task} {authFiles : Lists}
    (idle : ∀ account provider entry, s.tasks task ≠ some (.looking account provider entry))
    (registered : status.Registered) : Wired service start es { s.setTask task status with authFiles } := by
  apply wired.tasks
  · intro other account provider entry looking
    have differ : other ≠ task := by
      rintro rfl
      exact idle account provider entry looking
    exact (setTask_of_ne differ status).trans looking
  · intro other status' now
    by_cases same : other = task
    · subst same
      rw [setTask_self] at now
      cases now
      exact registered
    · rw [setTask_of_ne same] at now
      exact wired.registered other status' now

private theorem Wired.advances (wired : Wired service start es s) {task : ℕ} (advances : Advances s task t) :
    Wired service start es t := by
  have idle {request : Request} {provider : Provider} (listing : s.tasks task = some (.listing request provider)) :
      ∀ account provider entry, s.tasks task ≠ some (.looking account provider entry) := by
    intro account provider entry looking
    rw [listing] at looking
    cases looking
  cases advances with
  | stays => exact wired
  | @looks account provider entry listing =>
    have known := wired.registered task _ listing
    have set_ := @Wired.set _ _ _ _ wired task (.looking account provider entry) s.authFiles (idle listing) known
    have absent : s.quotas.calls task = none := by
      apply Option.eq_none_iff_forall_ne_some.mpr
      intro status begun
      obtain ⟨account, provider, entry, looking⟩ := wired.looks task status begun
      exact idle listing account provider entry looking
    have moved : Cache.step s.quotas (.begin_ task account.cacheKey Service.quotaTtl) =
        some (s.quotas.getOrFetch task account.cacheKey Service.quotaTtl) := by simp [Cache.step, absent]
    refine Wired.log set_ moved ?_ (by simp)
    rintro _ _ _ ⟨⟩
    exact ⟨account, provider, entry, setTask_self .., rfl⟩
  | resets payload listing => exact wired.set (idle listing) ⟨_, wired.registered task _ listing⟩
  | raises error listing => exact wired.set (idle listing) trivial

theorem wired_step (wired : Wired service start es s) (stepped : step service s e = some t) :
    Wired service start (es ++ [e]) t := by
  have wired := wired.later e
  have last : (es ++ [e])[es.length]? = some e := by simp
  have absent_idle {task : ℕ} (absent : s.tasks task = none) :
      ∀ account provider entry, s.tasks task ≠ some (.looking account provider entry) := by
    intro account provider entry looking
    rw [absent] at looking
    cases looking
  have resetting_idle {task : ℕ} {account : Account} {requestId : String} {payload : ResetPayload}
      (resetting : s.tasks task = some (.resetting account requestId payload)) :
      ∀ account provider entry, s.tasks task ≠ some (.looking account provider entry) := by
    intro account provider entry looking
    rw [resetting] at looking
    cases looking
  cases steps_of_step stepped with
  | unknown error absent => exact wired.set (absent_idle absent) trivial
  | @begins task request provider t authFiles absent known advances =>
    have found : providers.lookup request.account.providerId = some provider := by
      rw [Service.provider] at known
      split at known
      · next found =>
        cases known
        exact found
      · simp only [Except.bind_def, Except.bind_eq_ok] at known
        obtain ⟨_, _, raised⟩ := known
        cases raised
    have listing := @Wired.set _ _ _ _ wired task (.listing request provider) authFiles (absent_idle absent) found
    exact listing.advances advances
  | list authFiles advances =>
    have same := @Wired.tasks _ _ _ _ wired s.tasks authFiles (fun _ _ _ _ looking => looking) wired.registered
    rcases advances with rfl | ⟨task, _, advances⟩
    · exact same
    · exact same.advances advances
  | @returned task client clock account provider entry response quotas looking produced moved =>
    apply wired.log moved (by simp)
    rintro _ _ ⟨⟩
    exact ⟨es.length, client, clock, account, provider, entry, last, looking, produced⟩
  | raised error looking moved => exact wired.log moved (by simp) (by simp)
  | @quota qe quotas outside moved =>
    apply wired.log moved
    · rintro task key ttl rfl
      cases outside
    · rintro task response rfl
      cases outside
  | @succeeded task account requestId payload response resetting =>
    have set_ := @Wired.set _ _ _ _ wired task (.returned account requestId) s.authFiles (resetting_idle resetting)
      trivial
    have moved : Cache.step s.quotas (.invalidate account.cacheKey) = some (s.quotas.invalidate account.cacheKey) := rfl
    exact Wired.log set_ moved (by simp) (by simp)
  | refused error resetting => exact wired.set (resetting_idle resetting) trivial
  | tick authFiles moved =>
    have same := @Wired.tasks _ _ _ _ wired s.tasks authFiles (fun _ _ _ _ looking => looking) wired.registered
    exact Wired.log same moved (by simp) (by simp)

theorem wired_run {now : ℚ} (ran : run (step service) (System.start now) es = some s) : Wired service now es s := by
  apply run_trace (Wired service now) ?_ ?_ ran
  · constructor
    case ran => rfl
    case looks => simp [System.start, Cache.State.start]
    case keys => simp [System.start]
    case registered => simp [System.start]
    case produced => simp [System.start]
  · exact fun es middle e t _ wired stepped => wired_step wired stepped

end Wired

end CliproxyUsage.Quota
