import CliproxyUsage.Model.Cache
import Mathlib.Algebra.Order.BigOperators.Group.List

/-! # What one step of the cache can do

For each part of the state, the ways in which one event changes it. Every invariant of a run is
proved from these.
-/

namespace CliproxyUsage.Cache

open Machine

variable {K V E : Type} [DecidableEq K] {s t : State K V E} {e : Event K V E}

omit [DecidableEq K] in
theorem fresh_eq_some {key : K} {entry : Entry V} :
    s.fresh key = some entry ↔ s.store key = some entry ∧ s.now < entry.staleAt := by
  simp [State.fresh, Option.filter_eq_some_iff]

omit [DecidableEq K] in
/-- Only a pending future is completed. -/
theorem settle_apply (futures : ℕ → Future V E) (fetch : ℕ) (done : Future V E) (other : ℕ) :
    settle futures fetch done other = futures other ∨
      (other = fetch ∧ futures other = .pending ∧ settle futures fetch done other = done) := by
  rw [settle]
  cases own : futures fetch with
  | pending =>
    by_cases same : other = fetch
    · subst same
      exact .inr ⟨rfl, own, by simp⟩
    · exact .inl (by simp [same])
  | result value => exact .inl rfl
  | exception exc => exact .inl rfl
  | cancelled => exact .inl rfl

section Fields

variable (s) (call fetch generation : ℕ) (key : K) (ttl : V → ℚ) (value : V) (exc : Exc E)

@[simp] theorem release_now : (s.release call key).now = s.now := by rw [State.release]; split <;> rfl

@[simp] theorem release_store : (s.release call key).store = s.store := by rw [State.release]; split <;> rfl

@[simp] theorem release_generations : (s.release call key).generations = s.generations := by
  rw [State.release]; split <;> rfl

@[simp] theorem release_futures : (s.release call key).futures = s.futures := by rw [State.release]; split <;> rfl

@[simp] theorem release_calls : (s.release call key).calls = s.calls := by rw [State.release]; split <;> rfl

@[simp] theorem release_cancelRequested : (s.release call key).cancelRequested = s.cancelRequested := by
  rw [State.release]; split <;> rfl

/-- Releasing a fetch unregisters it and nothing else. -/
theorem release_inFlight (other : K) :
    (s.release call key).inFlight other =
      if other = key ∧ s.inFlight key = some call then none else s.inFlight other := by
  rw [State.release]
  by_cases registered : s.inFlight key = some call
  · by_cases same : other = key
    · subst same
      simp [registered]
    · simp [registered, same]
  · simp [registered]

@[simp] theorem publish_now : (s.publish call key generation ttl value).now = s.now := by
  rw [State.publish]; split <;> rfl

@[simp] theorem publish_inFlight : (s.publish call key generation ttl value).inFlight = s.inFlight := by
  rw [State.publish]; split <;> rfl

@[simp] theorem publish_generations : (s.publish call key generation ttl value).generations = s.generations := by
  rw [State.publish]; split <;> rfl

@[simp] theorem publish_futures : (s.publish call key generation ttl value).futures = s.futures := by
  rw [State.publish]; split <;> rfl

@[simp] theorem publish_calls : (s.publish call key generation ttl value).calls = s.calls := by
  rw [State.publish]; split <;> rfl

@[simp] theorem publish_cancelRequested :
    (s.publish call key generation ttl value).cancelRequested = s.cancelRequested := by
  rw [State.publish]; split <;> rfl

theorem publish_store (other : K) :
    (s.publish call key generation ttl value).store other =
      if other = key ∧ s.generations key = generation then some ⟨value, s.now + ttl value, call⟩
      else s.store other := by
  rw [State.publish]
  by_cases current : s.generations key = generation
  · by_cases same : other = key
    · subst same
      simp [current]
    · simp [current, same]
  · simp [current]

/-- What the leader does after its fetch returned, apart from its own future and outcome. -/
theorem succeed_fields :
    (s.succeed call key generation ttl value).now = s.now ∧
    (s.succeed call key generation ttl value).store = (s.publish call key generation ttl value).store ∧
    (s.succeed call key generation ttl value).inFlight = (s.release call key).inFlight ∧
    (s.succeed call key generation ttl value).generations = s.generations ∧
    (s.succeed call key generation ttl value).cancelRequested = s.cancelRequested := by
  have inFlight : ((s.publish call key generation ttl value).release call key).inFlight =
      (s.release call key).inFlight := by
    funext other
    rw [release_inFlight, release_inFlight, publish_inFlight]
  rw [State.succeed]
  split <;> simp [State.setCall, inFlight]

end Fields

/-- The enabled steps, with what enables them and the state they lead to. -/
inductive Steps (s : State K V E) : Event K V E → State K V E → Prop
  | begin_ {call : ℕ} {key : K} {ttl : V → ℚ} (absent : s.calls call = none) :
      Steps s (.begin_ call key ttl) (s.getOrFetch call key ttl)
  | fetched {call : ℕ} {value : V} {key : K} {generation : ℕ} {ttl : V → ℚ}
      (running : s.calls call = some (.fetching key generation ttl)) :
      Steps s (.fetched call value) (s.succeed call key generation ttl value)
  | failed {call : ℕ} {err : E} {key : K} {generation : ℕ} {ttl : V → ℚ}
      (running : s.calls call = some (.fetching key generation ttl)) :
      Steps s (.failed call err) (s.fail call key (.fetch err))
  | aborted {call : ℕ} {key : K} {generation : ℕ} {ttl : V → ℚ}
      (running : s.calls call = some (.fetching key generation ttl)) (requested : s.cancelRequested call = true) :
      Steps s (.aborted call) (s.fail call key .cancelled)
  | wake {call fetch : ℕ} {outcome : Outcome V E} (waiting : s.calls call = some (.waiting fetch))
      (done : (s.futures fetch).outcome? = some outcome) :
      Steps s (.wake call)
        (s.setCall call (.done (.shared fetch) (if s.cancelRequested call then .raised .cancelled else outcome)))
  | invalidate (key : K) : Steps s (.invalidate key) (s.invalidate key)
  | tick {seconds : ℚ} (forward : 0 ≤ seconds) : Steps s (.tick seconds) { s with now := s.now + seconds }
  | cancel (call : ℕ) : Steps s (.cancel call) (s.cancel call)

theorem steps_of_step (stepped : step s e = some t) : Steps s e t := by
  cases e with
  | begin_ c key ttl =>
    simp only [step] at stepped
    split at stepped
    · next absent => cases stepped; exact .begin_ absent
    · contradiction
  | fetched c value =>
    simp only [step] at stepped
    split at stepped
    · next running => cases stepped; exact .fetched running
    · contradiction
  | failed c err =>
    simp only [step] at stepped
    split at stepped
    · next running => cases stepped; exact .failed running
    · contradiction
  | aborted c =>
    simp only [step] at stepped
    split at stepped
    · next running =>
      split at stepped
      · next requested => cases stepped; exact .aborted running requested
      · contradiction
    · contradiction
  | wake c =>
    simp only [step] at stepped
    split at stepped
    · next waiting =>
      obtain ⟨outcome, done, rfl⟩ := Option.map_eq_some_iff.mp stepped
      exact .wake waiting done
    · contradiction
  | invalidate key => cases stepped; exact .invalidate key
  | tick seconds =>
    simp only [step] at stepped
    split at stepped
    · next forward => cases stepped; exact .tick forward
    · contradiction
  | cancel c => cases stepped; exact .cancel c

/-- How a call gets its new status. -/
inductive Moves (s : State K V E) (call : ℕ) : Event K V E → Call K V E → Prop
  | hit {key : K} {ttl : V → ℚ} {entry : Entry V} (absent : s.calls call = none)
      (found : s.fresh key = some entry) :
      Moves s call (.begin_ call key ttl) (.done (.stored entry.fetch) (.returned entry.value))
  | joined {key : K} {ttl : V → ℚ} {fetch : ℕ} (absent : s.calls call = none) (missing : s.fresh key = none)
      (registered : s.inFlight key = some fetch) (pending : (s.futures fetch).outcome? = none) :
      Moves s call (.begin_ call key ttl) (.waiting fetch)
  | joinedDone {key : K} {ttl : V → ℚ} {fetch : ℕ} {outcome : Outcome V E} (absent : s.calls call = none)
      (missing : s.fresh key = none) (registered : s.inFlight key = some fetch)
      (done : (s.futures fetch).outcome? = some outcome) :
      Moves s call (.begin_ call key ttl) (.done (.shared fetch) outcome)
  | led {key : K} {ttl : V → ℚ} (absent : s.calls call = none) (missing : s.fresh key = none)
      (unregistered : s.inFlight key = none) :
      Moves s call (.begin_ call key ttl) (.fetching key (s.generations key) ttl)
  | returned {key : K} {generation : ℕ} {ttl : V → ℚ} {value : V}
      (running : s.calls call = some (.fetching key generation ttl)) (open_ : s.futures call = .pending) :
      Moves s call (.fetched call value) (.done (.shared call) (.returned value))
  | spoiled {key : K} {generation : ℕ} {ttl : V → ℚ} {value : V}
      (running : s.calls call = some (.fetching key generation ttl)) (closed : s.futures call ≠ .pending) :
      Moves s call (.fetched call value) (.done (.shared call) (.raised .invalidState))
  | failed {key : K} {generation : ℕ} {ttl : V → ℚ} {err : E}
      (running : s.calls call = some (.fetching key generation ttl)) :
      Moves s call (.failed call err) (.done (.shared call) (.raised (.fetch err)))
  | aborted {key : K} {generation : ℕ} {ttl : V → ℚ}
      (running : s.calls call = some (.fetching key generation ttl)) (requested : s.cancelRequested call = true) :
      Moves s call (.aborted call) (.done (.shared call) (.raised .cancelled))
  | woken {fetch : ℕ} {outcome : Outcome V E} (waiting : s.calls call = some (.waiting fetch))
      (done : (s.futures fetch).outcome? = some outcome) (kept : s.cancelRequested call = false) :
      Moves s call (.wake call) (.done (.shared fetch) outcome)
  | dropped {fetch : ℕ} (waiting : s.calls call = some (.waiting fetch))
      (requested : s.cancelRequested call = true) :
      Moves s call (.wake call) (.done (.shared fetch) (.raised .cancelled))

/-- Every new status of a call is one of the moves, made by an event of that call. -/
theorem step_calls (stepped : step s e = some t) {call : ℕ} {status : Call K V E}
    (now : t.calls call = some status) : s.calls call = some status ∨ Moves s call e status := by
  cases steps_of_step stepped with
  | @begin_ c key ttl absent =>
    rw [State.getOrFetch] at now
    by_cases same : call = c
    · subst same
      right
      split at now
      · next entry found =>
        simp only [State.setCall, Function.update_self, Option.some.injEq] at now
        subst now
        exact .hit absent found
      · next missing =>
        split at now
        · next fetch registered =>
          simp only [State.join, State.setCall, Function.update_self, Option.some.injEq] at now
          split at now
          · next outcome done =>
            subst now
            exact .joinedDone absent missing registered done
          · next pending =>
            subst now
            exact .joined absent missing registered pending
        · next unregistered =>
          simp only [State.lead, State.setCall, Function.update_self, Option.some.injEq] at now
          subst now
          exact .led absent missing unregistered
    · left
      split at now
      · simpa [State.setCall, same] using now
      · split at now
        · simpa [State.join, State.setCall, same] using now
        · simpa [State.lead, State.setCall, same] using now
  | @fetched c value key generation ttl running =>
    rw [State.succeed] at now
    by_cases same : call = c
    · subst same
      right
      split at now
      · next open_ =>
        simp only [State.setCall, Function.update_self, Option.some.injEq] at now
        subst now
        exact .returned running open_
      · next closed =>
        simp only [State.setCall, Function.update_self, Option.some.injEq] at now
        subst now
        exact .spoiled running closed
    · left
      split at now <;> simpa [State.setCall, same] using now
  | @failed c err key generation ttl running =>
    by_cases same : call = c
    · subst same
      simp only [State.fail, State.setCall, Function.update_self, Option.some.injEq] at now
      subst now
      exact .inr (.failed running)
    · left
      simpa [State.fail, State.setCall, same] using now
  | @aborted c key generation ttl running requested =>
    by_cases same : call = c
    · subst same
      simp only [State.fail, State.setCall, Function.update_self, Option.some.injEq] at now
      subst now
      exact .inr (.aborted running requested)
    · left
      simpa [State.fail, State.setCall, same] using now
  | @wake c fetch outcome waiting done =>
    by_cases same : call = c
    · subst same
      simp only [State.setCall, Function.update_self, Option.some.injEq] at now
      subst now
      right
      cases requested : s.cancelRequested call with
      | false => exact .woken waiting done requested
      | true => exact .dropped waiting requested
    · left
      simpa [State.setCall, same] using now
  | invalidate key => exact .inl now
  | tick forward => exact .inl now
  | cancel c =>
    left
    rw [State.cancel] at now
    split at now <;> exact now

/-- A call that has begun stays begun. -/
theorem step_begun (stepped : step s e = some t) {call : ℕ} (begun : s.calls call ≠ none) :
    t.calls call ≠ none := by
  have kept : ∀ (c : ℕ) (status : Call K V E), Function.update s.calls c (some status) call ≠ none := by
    intro c status
    rw [Function.update_apply]
    split
    · exact Option.some_ne_none _
    · exact begun
  cases steps_of_step stepped with
  | begin_ absent =>
    rw [State.getOrFetch]
    split
    · exact kept _ _
    · split
      · exact kept _ _
      · exact kept _ _
  | fetched running =>
    rw [State.succeed]
    split <;> simpa [State.setCall] using kept _ _
  | failed running => simpa [State.fail, State.setCall] using kept _ _
  | aborted running requested => simpa [State.fail, State.setCall] using kept _ _
  | wake waiting done => exact kept _ _
  | invalidate key => exact begun
  | tick forward => exact begun
  | cancel c =>
    rw [State.cancel]
    split <;> exact begun

theorem step_begin {call : ℕ} {key : K} {ttl : V → ℚ} (stepped : step s (.begin_ call key ttl) = some t) :
    s.calls call = none ∧ t.calls call ≠ none := by
  cases steps_of_step stepped with
  | begin_ absent =>
    refine ⟨absent, ?_⟩
    rw [State.getOrFetch]
    split
    · simp [State.setCall]
    · split <;> simp [State.join, State.lead, State.setCall]

/-- The clock moves only when time passes. -/
theorem step_now (stepped : step s e = some t) : t.now = s.now + elapsed [e] := by
  cases steps_of_step stepped with
  | begin_ absent =>
    rw [State.getOrFetch]
    split
    · simp [State.setCall, elapsed]
    · split <;> simp [State.join, State.lead, State.setCall, elapsed]
  | fetched running => simp [(succeed_fields ..).1, elapsed]
  | failed running => simp [State.fail, State.setCall, elapsed]
  | aborted running requested => simp [State.fail, State.setCall, elapsed]
  | wake waiting done => simp [State.setCall, elapsed]
  | invalidate key => simp [State.invalidate, elapsed]
  | tick forward => simp [elapsed]
  | cancel c =>
    rw [State.cancel]
    split <;> simp [elapsed]

/-- Whether an event invalidates a key. -/
def Event.invalidates (key : K) : Event K V E → Bool
  | .invalidate other => decide (other = key)
  | _ => false

/-- A generation counts the invalidations of its key. -/
theorem step_generations (stepped : step s e = some t) (key : K) :
    t.generations key = s.generations key + if e.invalidates key then 1 else 0 := by
  cases steps_of_step stepped with
  | begin_ absent =>
    rw [State.getOrFetch]
    split
    · simp [State.setCall, Event.invalidates]
    · split <;> simp [State.join, State.lead, State.setCall, Event.invalidates]
  | fetched running => simp [(succeed_fields ..).2.2.2.1, Event.invalidates]
  | failed running => simp [State.fail, State.setCall, Event.invalidates]
  | aborted running requested => simp [State.fail, State.setCall, Event.invalidates]
  | wake waiting done => simp [State.setCall, Event.invalidates]
  | invalidate other =>
    by_cases same : other = key
    · subst same
      simp [State.invalidate, Event.invalidates]
    · simp [State.invalidate, Event.invalidates, same, Function.update_of_ne (Ne.symm same)]
  | tick forward => simp [Event.invalidates]
  | cancel c =>
    rw [State.cancel]
    split <;> simp [Event.invalidates]

/-- An entry is kept from before an event that does not invalidate its key, or was published by
a fetch whose generation is still current. -/
theorem step_store (stepped : step s e = some t) {key : K} {entry : Entry V} (stored : t.store key = some entry) :
    (s.store key = some entry ∧ e.invalidates key = false) ∨
      ∃ ttl, e = .fetched entry.fetch entry.value ∧
        s.calls entry.fetch = some (.fetching key (s.generations key) ttl) ∧
        entry.staleAt = s.now + ttl entry.value := by
  cases steps_of_step stepped with
  | begin_ absent =>
    refine .inl ⟨?_, rfl⟩
    rw [State.getOrFetch] at stored
    split at stored
    · exact stored
    · split at stored <;> exact stored
  | @fetched c value owner generation ttl running =>
    rw [(succeed_fields ..).2.1, publish_store] at stored
    split at stored
    · next current =>
      obtain ⟨rfl, current⟩ := current
      cases stored
      exact .inr ⟨ttl, rfl, current ▸ running, rfl⟩
    · exact .inl ⟨stored, rfl⟩
  | failed running => exact .inl ⟨by simpa [State.fail, State.setCall] using stored, rfl⟩
  | aborted running requested => exact .inl ⟨by simpa [State.fail, State.setCall] using stored, rfl⟩
  | wake waiting done => exact .inl ⟨stored, rfl⟩
  | invalidate other =>
    left
    by_cases same : other = key
    · subst same
      simp [State.invalidate] at stored
    · simp only [State.invalidate, Function.update_of_ne (Ne.symm same)] at stored
      exact ⟨stored, by simp [Event.invalidates, same]⟩
  | tick forward => exact .inl ⟨stored, rfl⟩
  | cancel c =>
    refine .inl ⟨?_, rfl⟩
    rw [State.cancel] at stored
    split at stored <;> exact stored

/-- The steps of a call leave an entry alone, unless its fetch returns under the current generation. -/
theorem step_store_of_call {call : ℕ} (owner : e.call? = some call) (stepped : step s e = some t) (key : K) :
    t.store key = s.store key ∨
      ∃ value ttl, e = .fetched call value ∧ s.calls call = some (.fetching key (s.generations key) ttl) := by
  cases steps_of_step stepped with
  | begin_ absent =>
    left
    rw [State.getOrFetch]
    split
    · rfl
    · split <;> rfl
  | @fetched c value own generation ttl running =>
    obtain rfl : c = call := by simpa [Event.call?] using owner
    rw [(succeed_fields ..).2.1, publish_store]
    split
    · next current =>
      obtain ⟨rfl, current⟩ := current
      exact .inr ⟨value, ttl, rfl, current ▸ running⟩
    · exact .inl rfl
  | failed running => exact .inl (by simp [State.fail, State.setCall])
  | aborted running requested => exact .inl (by simp [State.fail, State.setCall])
  | wake waiting done => exact .inl rfl
  | invalidate other => simp [Event.call?] at owner
  | tick forward => simp [Event.call?] at owner
  | cancel c => simp [Event.call?] at owner

/-- A registered fetch was registered before an event that does not invalidate its key, or began
with the event. -/
theorem step_inFlight (stepped : step s e = some t) {key : K} {fetch : ℕ} (registered : t.inFlight key = some fetch) :
    (s.inFlight key = some fetch ∧ e.invalidates key = false) ∨
      ∃ ttl, e = .begin_ fetch key ttl ∧ t.calls fetch = some (.fetching key (s.generations key) ttl) := by
  cases steps_of_step stepped with
  | @begin_ c owner ttl absent =>
    rw [State.getOrFetch] at registered ⊢
    split at registered
    · exact .inl ⟨registered, rfl⟩
    · split at registered
      · exact .inl ⟨registered, rfl⟩
      · by_cases same : key = owner
        · subst same
          simp only [State.lead, Function.update_self, Option.some.injEq] at registered
          subst registered
          exact .inr ⟨ttl, rfl, by simp [State.lead, State.setCall]⟩
        · simp only [State.lead, Function.update_of_ne same] at registered
          exact .inl ⟨registered, rfl⟩
  | fetched running =>
    rw [(succeed_fields ..).2.2.1, release_inFlight] at registered
    split at registered
    · contradiction
    · exact .inl ⟨registered, rfl⟩
  | failed running =>
    simp only [State.fail, State.setCall, release_inFlight] at registered
    split at registered
    · contradiction
    · exact .inl ⟨registered, rfl⟩
  | aborted running requested =>
    simp only [State.fail, State.setCall, release_inFlight] at registered
    split at registered
    · contradiction
    · exact .inl ⟨registered, rfl⟩
  | wake waiting done => exact .inl ⟨registered, rfl⟩
  | invalidate other =>
    left
    by_cases same : other = key
    · subst same
      simp [State.invalidate] at registered
    · simp only [State.invalidate, Function.update_of_ne (Ne.symm same)] at registered
      exact ⟨registered, by simp [Event.invalidates, same]⟩
  | tick forward => exact .inl ⟨registered, rfl⟩
  | cancel c =>
    refine .inl ⟨?_, rfl⟩
    rw [State.cancel] at registered
    split at registered <;> exact registered

/-- How a future changes: its own fetch ends while it is pending, a new call takes its name, or
the task of a waiting call is cancelled. -/
theorem step_futures (stepped : step s e = some t) (fetch : ℕ) :
    t.futures fetch = s.futures fetch ∨
      (t.futures fetch = .pending ∧ s.calls fetch = none) ∨
      (s.futures fetch = .pending ∧
        ((∃ value, e = .fetched fetch value ∧ t.futures fetch = .result value) ∨
          (∃ err, e = .failed fetch err ∧ t.futures fetch = .exception (.fetch err)) ∨
          (e = .aborted fetch ∧ s.cancelRequested fetch = true ∧ t.futures fetch = .exception .cancelled) ∨
          ∃ call, e = .cancel call ∧ s.calls call = some (.waiting fetch) ∧ t.futures fetch = .cancelled)) := by
  cases steps_of_step stepped with
  | @begin_ c owner ttl absent =>
    rw [State.getOrFetch]
    split
    · exact .inl rfl
    · split
      · exact .inl rfl
      · by_cases same : fetch = c
        · subst same
          exact .inr (.inl ⟨by simp [State.lead], absent⟩)
        · exact .inl (by simp [State.lead, same])
  | @fetched c value owner generation ttl running =>
    rw [State.succeed]
    split
    · next open_ =>
      by_cases same : fetch = c
      · subst same
        exact .inr (.inr ⟨open_, .inl ⟨value, rfl, by simp⟩⟩)
      · exact .inl (by simp [same])
    · exact .inl (by simp [State.setCall])
  | @failed c err owner generation ttl running =>
    rcases settle_apply s.futures c (.exception (.fetch err)) fetch with kept | ⟨rfl, open_, changed⟩
    · exact .inl kept
    · exact .inr (.inr ⟨open_, .inr (.inl ⟨err, rfl, changed⟩)⟩)
  | @aborted c owner generation ttl running requested =>
    rcases settle_apply s.futures c (.exception .cancelled) fetch with kept | ⟨rfl, open_, changed⟩
    · exact .inl kept
    · exact .inr (.inr ⟨open_, .inr (.inr (.inl ⟨rfl, requested, changed⟩))⟩)
  | wake waiting done => exact .inl rfl
  | invalidate other => exact .inl rfl
  | tick forward => exact .inl rfl
  | cancel c =>
    rw [State.cancel]
    split
    · exact .inl rfl
    · next awaited waiting =>
      rcases settle_apply s.futures awaited .cancelled fetch with kept | ⟨rfl, open_, changed⟩
      · exact .inl kept
      · exact .inr (.inr ⟨open_, .inr (.inr (.inr ⟨c, rfl, waiting, changed⟩))⟩)
    · exact .inl rfl

/-- The events that end the fetch of a call, and the call with it. -/
def Event.Ends (call : ℕ) : Event K V E → Prop
  | .fetched c _ | .failed c _ | .aborted c => c = call
  | _ => False

/-- When its fetch ends, a leader is done and its fetch is not registered any more. -/
theorem step_ends (stepped : step s e = some t) {call : ℕ} (ends : e.Ends call) {key : K} {generation : ℕ}
    {ttl : V → ℚ} (running : s.calls call = some (.fetching key generation ttl)) :
    (∃ outcome, t.calls call = some (.done (.shared call) outcome)) ∧ t.inFlight key ≠ some call := by
  have released : (s.release call key).inFlight key ≠ some call := by
    rw [release_inFlight]
    split
    · simp
    · next kept => exact fun registered => kept ⟨rfl, registered⟩
  cases steps_of_step stepped with
  | begin_ absent => exact ends.elim
  | @fetched c value own g ttl' fetching =>
    obtain rfl : c = call := ends
    obtain ⟨rfl, rfl, rfl⟩ : own = key ∧ g = generation ∧ ttl' = ttl := by
      simpa using fetching.symm.trans running
    rw [(succeed_fields ..).2.2.1]
    refine ⟨?_, released⟩
    rw [State.succeed]
    split
    · exact ⟨_, Function.update_self ..⟩
    · exact ⟨_, Function.update_self ..⟩
  | @failed c err own g ttl' fetching =>
    obtain rfl : c = call := ends
    obtain ⟨rfl, rfl, rfl⟩ : own = key ∧ g = generation ∧ ttl' = ttl := by
      simpa using fetching.symm.trans running
    exact ⟨⟨_, Function.update_self ..⟩, released⟩
  | @aborted c own g ttl' fetching requested =>
    obtain rfl : c = call := ends
    obtain ⟨rfl, rfl, rfl⟩ : own = key ∧ g = generation ∧ ttl' = ttl := by
      simpa using fetching.symm.trans running
    exact ⟨⟨_, Function.update_self ..⟩, released⟩
  | wake waiting done => exact ends.elim
  | invalidate other => exact ends.elim
  | tick forward => exact ends.elim
  | cancel c => exact ends.elim

/-- Only the end of its fetch ends a leader. -/
theorem step_fetching (stepped : step s e = some t) {call : ℕ} {key : K} {generation : ℕ} {ttl : V → ℚ}
    (running : s.calls call = some (.fetching key generation ttl)) :
    t.calls call = some (.fetching key generation ttl) ∨ e.Ends call := by
  cases now : t.calls call with
  | none => exact absurd now (step_begun stepped (by rw [running]; simp))
  | some status =>
    rcases step_calls stepped now with old | moved
    · left
      rw [← old, running]
    · cases moved with
      | hit absent => simp [running] at absent
      | joined absent => simp [running] at absent
      | joinedDone absent => simp [running] at absent
      | led absent => simp [running] at absent
      | returned => exact .inr rfl
      | spoiled => exact .inr rfl
      | failed => exact .inr rfl
      | aborted => exact .inr rfl
      | woken waiting => simp [running] at waiting
      | dropped waiting => simp [running] at waiting

/-- A new leader starts with a pending future. -/
theorem step_led {call : ℕ} {key : K} {ttl : V → ℚ} (stepped : step s (.begin_ call key ttl) = some t)
    (missing : s.fresh key = none) (unregistered : s.inFlight key = none) : t.futures call = .pending := by
  cases steps_of_step stepped with
  | begin_ absent => simp [State.getOrFetch, missing, unregistered, State.lead]

/-- A call that is done stays as it is. -/
theorem step_done (stepped : step s e = some t) {call : ℕ} {via : Via} {outcome : Outcome V E}
    (done : s.calls call = some (.done via outcome)) : t.calls call = some (.done via outcome) := by
  cases now : t.calls call with
  | none => exact absurd now (step_begun stepped (by rw [done]; simp))
  | some status =>
    rcases step_calls stepped now with old | moved
    · rw [← old, done]
    · cases moved with
      | hit absent => simp [done] at absent
      | joined absent => simp [done] at absent
      | joinedDone absent => simp [done] at absent
      | led absent => simp [done] at absent
      | returned running => simp [done] at running
      | spoiled running => simp [done] at running
      | failed running => simp [done] at running
      | aborted running => simp [done] at running
      | woken waiting => simp [done] at waiting
      | dropped waiting => simp [done] at waiting

/-- Only a running fetch ends. -/
theorem ends_running (stepped : step s e = some t) {call : ℕ} (ends : e.Ends call) :
    ∃ key generation ttl, s.calls call = some (.fetching key generation ttl) := by
  cases steps_of_step stepped with
  | fetched running => exact ends ▸ ⟨_, _, _, running⟩
  | failed running => exact ends ▸ ⟨_, _, _, running⟩
  | aborted running requested => exact ends ▸ ⟨_, _, _, running⟩
  | begin_ absent => exact ends.elim
  | wake waiting done => exact ends.elim
  | invalidate other => exact ends.elim
  | tick forward => exact ends.elim
  | cancel c => exact ends.elim

/-- A pending future takes the value that its fetch returns. -/
theorem step_fetched {call : ℕ} {value : V} (stepped : step s (.fetched call value) = some t)
    (open_ : s.futures call = .pending) : t.futures call = .result value := by
  cases steps_of_step stepped with
  | fetched running => simp [State.succeed, open_]

/-- A pending future takes the exception that its fetch raises. -/
theorem step_failed {call : ℕ} {err : E} (stepped : step s (.failed call err) = some t)
    (open_ : s.futures call = .pending) : t.futures call = .exception (.fetch err) := by
  cases steps_of_step stepped with
  | failed running => simp [State.fail, settle, open_]

/-- A cancellation is only ever requested by cancelling the task while it fetches or waits. -/
theorem step_cancelRequested (stepped : step s e = some t) (call : ℕ) :
    t.cancelRequested call = s.cancelRequested call ∨
      (e = .cancel call ∧ ((∃ key generation ttl, s.calls call = some (.fetching key generation ttl)) ∨
        ∃ fetch, s.calls call = some (.waiting fetch))) := by
  cases steps_of_step stepped with
  | begin_ absent =>
    left
    rw [State.getOrFetch]
    split
    · rfl
    · split <;> rfl
  | fetched running => exact .inl (congrFun (succeed_fields ..).2.2.2.2 call)
  | failed running => exact .inl (by simp [State.fail, State.setCall])
  | aborted running requested => exact .inl (by simp [State.fail, State.setCall])
  | wake waiting done => exact .inl rfl
  | invalidate other => exact .inl rfl
  | tick forward => exact .inl rfl
  | cancel c =>
    rw [State.cancel]
    by_cases same : c = call
    · subst same
      split
      · next running => exact .inr ⟨rfl, .inl ⟨_, _, _, running⟩⟩
      · next waiting => exact .inr ⟨rfl, .inr ⟨_, waiting⟩⟩
      · exact .inl rfl
    · left
      split
      · simp [Function.update_of_ne (Ne.symm same)]
      · simp [Function.update_of_ne (Ne.symm same)]
      · rfl

end CliproxyUsage.Cache
