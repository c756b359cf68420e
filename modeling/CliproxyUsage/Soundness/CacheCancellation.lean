import CliproxyUsage.Proofs.CacheTrace
import Mathlib.Tactic.Linarith

/-! # Cancelled callers of the cache

A leader and its waiters share one future, so the cancellation of one of their tasks can reach the
others. As long as no step makes that happen, every call that is not itself cancelled ends with the
outcome of the fetch it led, joined or found stored; the tapes at the end show how each excluded
step breaks it.
-/

namespace CliproxyUsage.Cache

open Machine

variable {K V E : Type} [DecidableEq K]

/-- The call ended with a stored value that was fresh when it began, or with what the fetch that it
led or joined returned or raised. -/
inductive OwnFetch (es : List (Event K V E)) (call : ℕ) : Via → Outcome V E → Prop
  | stored {fetch : ℕ} {value : V} {key : K} {ttl ttl' : V → ℚ} {a b j : ℕ}
      (called : es[b]? = some (.begin_ call key ttl)) (began : es[a]? = some (.begin_ fetch key ttl'))
      (fetched : es[j]? = some (.fetched fetch value))
      (fresh : elapsed (es.take b) - elapsed (es.take j) < ttl' value) :
      OwnFetch es call (.stored fetch) (.returned value)
  | value {fetch : ℕ} {value : V} {j : ℕ} (serves : Serves es call fetch)
      (fetched : es[j]? = some (.fetched fetch value)) : OwnFetch es call (.shared fetch) (.returned value)
  | error {fetch : ℕ} {err : E} {j : ℕ} (serves : Serves es call fetch)
      (failed : es[j]? = some (.failed fetch err)) : OwnFetch es call (.shared fetch) (.raised (.fetch err))

/-- Calls that are not cancelled end with their fetch, and can resume once it has ended. -/
def EndsWithFetch (es : List (Event K V E)) (s : State K V E) : Prop :=
  (∀ call via outcome, s.calls call = some (.done via outcome) → s.cancelRequested call = false →
    OwnFetch es call via outcome) ∧
  ∀ call fetch outcome, s.calls call = some (.waiting fetch) → OwnFetch es call (.shared fetch) outcome →
    (s.futures fetch).outcome? = some outcome

/-- The step cancels no task while another task depends on it: no waiter of a pending future, and
no leader that others wait for; and no call joins a fetch whose leader is being cancelled. -/
def Undisturbed (s : State K V E) : Event K V E → Prop
  | .cancel call =>
    (∀ fetch, s.calls call = some (.waiting fetch) → s.futures fetch ≠ .pending) ∧
      ∀ key generation ttl, s.calls call = some (.fetching key generation ttl) →
        ∀ other, s.calls other ≠ some (.waiting call)
  | .begin_ _ key _ =>
    ∀ fetch, s.fresh key = none → s.inFlight key = some fetch → s.cancelRequested fetch = false
  | _ => True

/-- What undisturbed steps keep. -/
structure Calm (es : List (Event K V E)) (s : State K V E) : Prop where
  uncancelled : ∀ fetch, s.futures fetch ≠ .cancelled
  leads : ∀ key fetch, s.inFlight key = some fetch → ∃ generation ttl,
    s.calls fetch = some (.fetching key generation ttl)
  open_ : ∀ call key generation ttl, s.calls call = some (.fetching key generation ttl) →
    s.futures call = .pending
  awaited : ∀ call fetch, s.calls call = some (.waiting fetch) →
    (∃ key generation ttl, s.calls fetch = some (.fetching key generation ttl)) ∨
      ∃ outcome, s.calls fetch = some (.done (.shared fetch) outcome)
  alone : ∀ call fetch, s.calls call = some (.waiting fetch) →
    s.cancelRequested fetch = false ∧ s.futures fetch ≠ .exception .cancelled
  errors : ∀ fetch exc, s.futures fetch = .exception exc → exc = .cancelled ∨
    ∃ (err : E) (j : ℕ), exc = .fetch err ∧ es[j]? = some (Event.failed fetch err)
  begun : ∀ (j : ℕ) e call, es[j]? = some e → e.Ends call → s.calls call ≠ none
  fetched : ∀ (j : ℕ) fetch v, es[j]? = some (Event.fetched fetch v) → s.futures fetch = .result v
  failed : ∀ (j : ℕ) fetch err, es[j]? = some (Event.failed fetch err) → s.futures fetch = .exception (.fetch err)
  ended : ∀ call via outcome, s.calls call = some (.done via outcome) → s.cancelRequested call = false →
    OwnFetch es call via outcome

section Step

variable {start : ℚ} {es : List (Event K V E)} {e : Event K V E} {s t : State K V E}

omit [DecidableEq K] in
private theorem OwnFetch.later {call : ℕ} {via : Via} {outcome : Outcome V E} (own : OwnFetch es call via outcome) :
    OwnFetch (es ++ [e]) call via outcome := by
  cases own with
  | stored called began fetched fresh =>
    apply OwnFetch.stored (Cache.later called) (Cache.later began) (Cache.later fetched)
    rwa [take_concat called, take_concat fetched]
  | value serves fetched => exact .value serves.later (Cache.later fetched)
  | error serves failed => exact .error serves.later (Cache.later failed)

/-- A future that is done stays as it is. -/
private theorem settled (stepped : step s e = some t) {fetch : ℕ} {done : Future V E}
    (closed : done ≠ .pending) (begun : s.calls fetch ≠ none) (now : s.futures fetch = done) :
    t.futures fetch = done := by
  rcases step_futures stepped fetch with kept | ⟨_, absent⟩ | ⟨pending, _⟩
  · rw [kept, now]
  · exact absurd absent begun
  · exact absurd (now.symm.trans pending) closed

private theorem calm_uncancelled (calm : Calm es s) (undisturbed : Undisturbed s e) (stepped : step s e = some t)
    (fetch : ℕ) : t.futures fetch ≠ .cancelled := by
  intro cancelled
  rcases step_futures stepped fetch with kept | ⟨fresh, _⟩ | ⟨pending, changed⟩
  · exact calm.uncancelled fetch (kept ▸ cancelled)
  · simp [fresh] at cancelled
  · rcases changed with ⟨_, _, done⟩ | ⟨_, _, done⟩ | ⟨_, _, done⟩ | ⟨call, rfl, waiting, _⟩
    · simp [done] at cancelled
    · simp [done] at cancelled
    · simp [done] at cancelled
    · exact undisturbed.1 fetch waiting pending

private theorem calm_leads (calm : Calm es s) (stepped : step s e = some t) {key : K} {fetch : ℕ}
    (registered : t.inFlight key = some fetch) :
    ∃ generation ttl, t.calls fetch = some (.fetching key generation ttl) := by
  rcases step_inFlight stepped registered with ⟨old, _⟩ | ⟨ttl, _, running⟩
  · obtain ⟨generation, ttl, running⟩ := calm.leads key fetch old
    rcases step_fetching stepped running with still | ends
    · exact ⟨generation, ttl, still⟩
    · exact absurd registered (step_ends stepped ends running).2
  · exact ⟨_, ttl, running⟩

private theorem calm_open (calm : Calm es s) (undisturbed : Undisturbed s e) (stepped : step s e = some t)
    {call : ℕ} {key : K} {generation : ℕ} {ttl : V → ℚ}
    (running : t.calls call = some (.fetching key generation ttl)) : t.futures call = .pending := by
  have unended : e.Ends call → False := by
    intro ends
    obtain ⟨_, _, _, before⟩ := ends_running stepped ends
    obtain ⟨⟨outcome, done⟩, _⟩ := step_ends stepped ends before
    simp [done] at running
  rcases step_calls stepped running with old | moved
  · have pending := calm.open_ call key generation ttl old
    rcases step_futures stepped call with kept | ⟨fresh, _⟩ | ⟨_, changed⟩
    · rw [kept, pending]
    · exact fresh
    · rcases changed with ⟨_, rfl, _⟩ | ⟨_, rfl, _⟩ | ⟨rfl, _⟩ | ⟨other, rfl, waiting, _⟩
      · exact (unended rfl).elim
      · exact (unended rfl).elim
      · exact (unended rfl).elim
      · exact absurd pending (undisturbed.1 call waiting)
  · cases moved with
    | led absent missing unregistered => exact step_led stepped missing unregistered

private theorem calm_awaited (calm : Calm es s) (stepped : step s e = some t) {call fetch : ℕ}
    (waiting : t.calls call = some (.waiting fetch)) :
    (∃ key generation ttl, t.calls fetch = some (.fetching key generation ttl)) ∨
      ∃ outcome, t.calls fetch = some (.done (.shared fetch) outcome) := by
  have leader : (∃ key generation ttl, s.calls fetch = some (.fetching key generation ttl)) ∨
      ∃ outcome, s.calls fetch = some (.done (.shared fetch) outcome) := by
    rcases step_calls stepped waiting with old | moved
    · exact calm.awaited call fetch old
    · cases moved with
      | @joined key ttl _ absent missing registered pending =>
        obtain ⟨generation, ttl, running⟩ := calm.leads key fetch registered
        exact .inl ⟨key, generation, ttl, running⟩
  rcases leader with ⟨key, generation, ttl, running⟩ | ⟨outcome, done⟩
  · rcases step_fetching stepped running with still | ends
    · exact .inl ⟨key, generation, ttl, still⟩
    · exact .inr (step_ends stepped ends running).1
  · exact .inr ⟨outcome, step_done stepped done⟩

private theorem calm_alone (calm : Calm es s) (undisturbed : Undisturbed s e) (stepped : step s e = some t)
    {call fetch : ℕ} (waiting : t.calls call = some (.waiting fetch)) :
    t.cancelRequested fetch = false ∧ t.futures fetch ≠ .exception .cancelled := by
  rcases step_calls stepped waiting with old | moved
  · obtain ⟨unrequested, unraised⟩ := calm.alone call fetch old
    constructor
    · rcases step_cancelRequested stepped fetch with kept | ⟨rfl, ⟨key, generation, ttl, running⟩ | ⟨other, also⟩⟩
      · rw [kept, unrequested]
      · exact absurd old (undisturbed.2 key generation ttl running call)
      · -- A call that others wait for leads its fetch, so it does not wait itself.
        rcases calm.awaited call fetch old with ⟨_, _, _, running⟩ | ⟨_, done⟩
        · simp [running] at also
        · simp [done] at also
    · intro raised
      rcases step_futures stepped fetch with kept | ⟨fresh, _⟩ | ⟨_, changed⟩
      · exact unraised (kept ▸ raised)
      · simp [fresh] at raised
      · rcases changed with ⟨_, _, done⟩ | ⟨_, _, done⟩ | ⟨_, requested, _⟩ | ⟨_, _, _, done⟩
        · simp [done] at raised
        · simp [done] at raised
        · simp [unrequested] at requested
        · simp [done] at raised
  · cases moved with
    | @joined key ttl _ absent missing registered pending =>
      have unrequested : s.cancelRequested fetch = false := undisturbed fetch missing registered
      constructor
      · rcases step_cancelRequested stepped fetch with kept | ⟨other, _⟩
        · rw [kept, unrequested]
        · simp at other
      · intro raised
        rcases step_futures stepped fetch with kept | ⟨fresh, _⟩ | ⟨_, changed⟩
        · rw [← kept, raised] at pending
          simp [Future.outcome?] at pending
        · simp [fresh] at raised
        · rcases changed with ⟨_, other, _⟩ | ⟨_, other, _⟩ | ⟨other, _⟩ | ⟨_, other, _⟩
          · simp at other
          · simp at other
          · simp at other
          · simp at other

private theorem calm_errors (calm : Calm es s) (stepped : step s e = some t) {fetch : ℕ} {exc : Exc E}
    (raised : t.futures fetch = .exception exc) :
    exc = .cancelled ∨ ∃ (err : E) (j : ℕ), exc = .fetch err ∧ (es ++ [e])[j]? = some (Event.failed fetch err) := by
  rcases step_futures stepped fetch with kept | ⟨fresh, _⟩ | ⟨_, changed⟩
  · rcases calm.errors fetch exc (kept ▸ raised) with cancelled | ⟨err, j, same, failed⟩
    · exact .inl cancelled
    · exact .inr ⟨err, j, same, later failed⟩
  · simp [fresh] at raised
  · rcases changed with ⟨_, _, done⟩ | ⟨err, rfl, done⟩ | ⟨_, _, done⟩ | ⟨_, _, _, done⟩
    · simp [done] at raised
    · obtain rfl : Exc.fetch err = exc := by simpa [done] using raised
      exact .inr ⟨err, es.length, rfl, by simp⟩
    · obtain rfl : Exc.cancelled = exc := by simpa [done] using raised
      exact .inl rfl
    · simp [done] at raised

/-- What a waiter resumes with is the outcome of its fetch. -/
private theorem own_of_outcome (traced : Traced start es s) (calm : Calm es s) {call fetch : ℕ}
    {outcome : Outcome V E} (waiting : s.calls call = some (.waiting fetch))
    (done : (s.futures fetch).outcome? = some outcome) : OwnFetch es call (.shared fetch) outcome := by
  have serves := traced.waiting call fetch waiting
  cases future : s.futures fetch with
  | pending => simp [future, Future.outcome?] at done
  | result v =>
    obtain rfl : Outcome.returned v = outcome := by simpa [future, Future.outcome?] using done
    obtain ⟨j, fetched⟩ := traced.results fetch v future
    exact .value serves fetched
  | exception exc =>
    obtain rfl : Outcome.raised exc = outcome := by simpa [future, Future.outcome?] using done
    rcases calm.errors fetch exc future with rfl | ⟨err, j, rfl, failed⟩
    · exact absurd future (calm.alone call fetch waiting).2
    · exact .error serves failed
  | cancelled => exact absurd future (calm.uncancelled fetch)

private theorem calm_ended (traced : Traced start es s) (calm : Calm es s) (stepped : step s e = some t) {call : ℕ}
    {via : Via} {outcome : Outcome V E} (now : t.calls call = some (.done via outcome))
    (unrequested : t.cancelRequested call = false) : OwnFetch (es ++ [e]) call via outcome := by
  rcases step_calls stepped now with old | moved
  · rcases step_cancelRequested stepped call with kept | ⟨_, ⟨_, _, _, running⟩ | ⟨_, waiting⟩⟩
    · exact (calm.ended call via outcome old (kept ▸ unrequested)).later
    · simp [old] at running
    · simp [old] at waiting
  · have led {key : K} {generation : ℕ} {ttl : V → ℚ} (running : s.calls call = some (.fetching key generation ttl)) :
        Serves es call call := by
      obtain ⟨a, began, _⟩ := traced.running call key generation ttl running
      exact ⟨a, key, ttl, began, a, ttl, began, fun q before _ => before⟩
    cases moved with
    | @hit key ttl entry absent found =>
      obtain ⟨stored, unexpired⟩ := fresh_eq_some.mp found
      obtain ⟨a, ttl', j, began, _, fetched, staleAt⟩ := traced.stored key entry stored
      have called : (es ++ [.begin_ call key ttl])[es.length]? = some (.begin_ call key ttl) := by simp
      refine .stored called (later began) (later fetched) ?_
      rw [traced.clock, staleAt] at unexpired
      rw [take_concat fetched, List.take_left']
      · linarith
      · rfl
    | @joinedDone key ttl fetch outcome absent missing registered done =>
      obtain ⟨generation, ttl', running⟩ := calm.leads key fetch registered
      simp [calm.open_ fetch key generation ttl' running, Future.outcome?] at done
    | returned running => exact .value (led running).later (getElem?_concat.mpr (.inr ⟨rfl, rfl⟩))
    | spoiled running closed => exact absurd (calm.open_ _ _ _ _ running) closed
    | failed running => exact .error (led running).later (getElem?_concat.mpr (.inr ⟨rfl, rfl⟩))
    | aborted running requested =>
      rcases step_cancelRequested stepped call with kept | ⟨other, _⟩
      · simp [kept, requested] at unrequested
      · simp at other
    | woken waiting done => exact (own_of_outcome traced calm waiting done).later
    | dropped waiting requested =>
      rcases step_cancelRequested stepped call with kept | ⟨other, _⟩
      · simp [kept, requested] at unrequested
      · simp at other

/-- An undisturbed step leaves the cache calm. -/
theorem calm_step (traced : Traced start es s) (calm : Calm es s) (undisturbed : Undisturbed s e)
    (stepped : step s e = some t) : Calm (es ++ [e]) t where
  uncancelled := calm_uncancelled calm undisturbed stepped
  leads _ _ := calm_leads calm stepped
  open_ _ _ _ _ := calm_open calm undisturbed stepped
  awaited _ _ := calm_awaited calm stepped
  alone _ _ := calm_alone calm undisturbed stepped
  errors _ _ := calm_errors calm stepped
  begun j last call here ends := by
    rcases getElem?_concat.mp here with old | ⟨_, rfl⟩
    · exact step_begun stepped (calm.begun j last call old ends)
    · obtain ⟨_, _, _, running⟩ := ends_running stepped ends
      apply step_begun stepped
      simp [running]
  fetched j fetch v here := by
    rcases getElem?_concat.mp here with old | ⟨_, rfl⟩
    · exact settled stepped (by simp) (calm.begun j _ fetch old rfl) (calm.fetched j fetch v old)
    · obtain ⟨_, _, _, running⟩ := ends_running stepped (show Event.Ends fetch (.fetched fetch v) from rfl)
      exact step_fetched stepped (calm.open_ _ _ _ _ running)
  failed j fetch err here := by
    rcases getElem?_concat.mp here with old | ⟨_, rfl⟩
    · exact settled stepped (by simp) (calm.begun j _ fetch old rfl) (calm.failed j fetch err old)
    · obtain ⟨_, _, _, running⟩ := ends_running stepped (show Event.Ends fetch (.failed fetch err) from rfl)
      exact step_failed stepped (calm.open_ _ _ _ _ running)
  ended _ _ _ := calm_ended traced calm stepped

end Step

omit [DecidableEq K] in
theorem calm_start (start : ℚ) : Calm [] (State.start K V E start) where
  uncancelled _ := by simp [State.start]
  leads _ _ now := by simp [State.start] at now
  open_ _ _ _ _ now := by simp [State.start] at now
  awaited _ _ now := by simp [State.start] at now
  alone _ _ now := by simp [State.start] at now
  errors _ _ now := by simp [State.start] at now
  begun _ _ _ here := by simp at here
  fetched _ _ _ here := by simp at here
  failed _ _ _ here := by simp at here
  ended _ _ _ now := by simp [State.start] at now

omit [DecidableEq K] in
theorem calm_ends {es : List (Event K V E)} {s : State K V E} (calm : Calm es s) : EndsWithFetch es s := by
  refine ⟨calm.ended, ?_⟩
  intro call fetch outcome waiting own
  cases own with
  | value serves fetched => rw [calm.fetched _ fetch _ fetched]; rfl
  | error serves failed => rw [calm.failed _ fetch _ failed]; rfl

/-- In every state of a run whose steps disturb no other task, the calls that are not cancelled end
with their fetch. -/
theorem calls_end_with_their_fetch {start : ℚ} {es : List (Event K V E)} {s : State K V E}
    (undisturbed : StepsMeet step Undisturbed (State.start K V E start) es)
    (ran : run step (State.start K V E start) es = some s) : EndsWithFetch es s := by
  apply calm_ends
  apply run_trace_meeting Calm (calm_start start) ?_ undisturbed ran
  intro before middle e t reached calm ok stepped
  exact calm_step (traced_run reached) calm ok stepped

/-- A leader is cancelled while nobody waits, and a waiter after its future is done. -/
def harmlessTape : List (Event String ℕ String) :=
  [.begin_ 0 "k" fun _ => 60, .cancel 0, .aborted 0, .begin_ 1 "k" fun _ => 60, .begin_ 2 "k" fun _ => 60,
    .fetched 1 7, .cancel 2, .wake 2]

theorem calls_end_with_their_fetch_harmless :
    ∃ s, run step (State.start String ℕ String 0) harmlessTape = some s ∧ EndsWithFetch harmlessTape s := by
  have enabled : (run step (State.start String ℕ String 0) harmlessTape).isSome := by rfl
  refine ⟨_, (Option.some_get enabled).symm, calls_end_with_their_fetch ?_ (Option.some_get enabled).symm⟩
  rw [harmlessTape]
  -- The call 0 leads.
  rw [stepsMeet_cons]
  refine ⟨fun _ _ registered => (by cases registered), fun _ stepped => ?_⟩
  obtain rfl := Option.some.inj stepped
  -- It is cancelled while no other call has begun.
  rw [stepsMeet_cons]
  refine ⟨⟨fun _ waiting => (by cases waiting), ?_⟩, fun _ stepped => ?_⟩
  · intro _ _ _ _ other waiting
    cases other with
    | zero => cases waiting
    | succ n => cases waiting
  obtain rfl := Option.some.inj stepped
  rw [stepsMeet_cons]
  refine ⟨trivial, fun _ stepped => ?_⟩
  obtain rfl := Option.some.inj stepped
  -- The call 1 leads a new fetch, and the call 2 joins it.
  rw [stepsMeet_cons]
  refine ⟨fun _ _ registered => (by cases registered), fun _ stepped => ?_⟩
  obtain rfl := Option.some.inj stepped
  rw [stepsMeet_cons]
  refine ⟨fun _ _ registered => (by cases registered; rfl), fun _ stepped => ?_⟩
  obtain rfl := Option.some.inj stepped
  rw [stepsMeet_cons]
  refine ⟨trivial, fun _ stepped => ?_⟩
  obtain rfl := Option.some.inj stepped
  -- Its future is done when it is cancelled.
  rw [stepsMeet_cons]
  refine ⟨⟨?_, fun _ _ _ running => (by cases running)⟩, fun _ stepped => ?_⟩
  · intro _ waiting pending
    cases waiting
    cases pending
  obtain rfl := Option.some.inj stepped
  rw [stepsMeet_cons]
  exact ⟨trivial, fun _ _ => stepsMeet_nil⟩

/-- The tape leads to a state in which a call that is not cancelled has ended with an exception of
`asyncio`. -/
def Spoils (es : List (Event String ℕ String)) (call : ℕ) (exc : Exc String) : Prop :=
  ∃ s, run step (State.start String ℕ String 0) es = some s ∧
    (∃ via, s.calls call = some (.done via (.raised exc))) ∧ s.cancelRequested call = false

/-- A cancelled waiter spoils the leader, and the other waiters; a cancelled leader spoils its
waiters. -/
theorem cancellation_spreads :
    Spoils [.begin_ 0 "k" fun _ => 60, .begin_ 1 "k" fun _ => 60, .cancel 1, .fetched 0 7] 0 .invalidState ∧
    Spoils [.begin_ 0 "k" fun _ => 60, .begin_ 1 "k" fun _ => 60, .begin_ 2 "k" fun _ => 60, .cancel 1, .wake 2] 2
      .cancelled ∧
    Spoils [.begin_ 0 "k" fun _ => 60, .begin_ 1 "k" fun _ => 60, .cancel 0, .aborted 0, .wake 1] 1 .cancelled ∧
    ¬ ∀ (es : List (Event String ℕ String)) (s : State String ℕ String),
      run step (State.start String ℕ String 0) es = some s → EndsWithFetch es s := by
  have leader : Spoils [.begin_ 0 "k" fun _ => 60, .begin_ 1 "k" fun _ => 60, .cancel 1, .fetched 0 7] 0
      .invalidState := ⟨_, rfl, ⟨_, rfl⟩, rfl⟩
  refine ⟨leader, ⟨_, rfl, ⟨_, rfl⟩, rfl⟩, ⟨_, rfl, ⟨_, rfl⟩, rfl⟩, ?_⟩
  intro always
  obtain ⟨s, ran, ⟨via, ended⟩, unrequested⟩ := leader
  cases (always _ s ran).1 0 via _ ended unrequested

end CliproxyUsage.Cache
