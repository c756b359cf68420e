import CliproxyUsage.Proofs.CacheFlight
import CliproxyUsage.Soundness.CacheCancellation

/-! # One fetch at a time

Without cancellations, at most one of the fetches of a key that began since its last invalidation
runs, it is the registered one, and the calls that miss while it runs get its outcome. Leaders of
earlier generations and failed fetches leave nothing behind, so the next call fetches again.
-/

namespace CliproxyUsage.Cache

open Machine

variable {K V E : Type} [DecidableEq K]

/-- A fetch of the key that began since its last invalidation is running. -/
def Running (es : List (Event K V E)) (s : State K V E) (key : K) (fetch : ℕ) : Prop :=
  BeganAfter es fetch key es.length ∧ ∃ generation ttl, s.calls fetch = some (.fetching key generation ttl)

/-- The fetch ended in the tape, with this outcome. -/
inductive FetchEnds (es : List (Event K V E)) (fetch : ℕ) : Outcome V E → Prop
  | returned {j : ℕ} {value : V} (here : es[j]? = some (.fetched fetch value)) : FetchEnds es fetch (.returned value)
  | raised {j : ℕ} {err : E} (here : es[j]? = some (.failed fetch err)) : FetchEnds es fetch (.raised (.fetch err))

/-- The call waits for the fetch, and can resume with its outcome once it ends, or has ended with it. -/
inductive Joined (es : List (Event K V E)) (s : State K V E) (call fetch : ℕ) : Prop
  | waiting (waits : s.calls call = some (.waiting fetch))
      (resumes : ∀ outcome, FetchEnds es fetch outcome → ∃ t, step s (.wake call) = some t ∧
        t.calls call = some (.done (.shared fetch) outcome))
  | done {outcome : Outcome V E} (ended : FetchEnds es fetch outcome)
      (received : s.calls call = some (.done (.shared fetch) outcome))

variable {start : ℚ} {es : List (Event K V E)} {e : Event K V E} {s t : State K V E}

/-- Without an invalidation after position `a`, the rest of the tape adds nothing to the count. -/
private theorem countP_take {key : K} {a : ℕ}
    (after : ∀ q < es.length, es[q]? = some (Event.invalidate key) → q < a) :
    (es.take a).countP (Event.invalidates key) = es.countP (Event.invalidates key) := by
  have cut : es.countP (Event.invalidates key) = (es.take a).countP (Event.invalidates key) +
      (es.drop a).countP (Event.invalidates key) := by
    rw [← List.countP_append, List.take_append_drop]
  have none_ : (es.drop a).countP (Event.invalidates key) = 0 := by
    rw [List.countP_eq_zero]
    intro e member invalidated
    obtain ⟨i, here⟩ := List.mem_iff_getElem?.mp member
    rw [List.getElem?_drop] at here
    cases e with
    | invalidate other =>
      obtain rfl : other = key := by simpa [Event.invalidates] using invalidated
      have bound := (List.getElem?_eq_some_iff.mp here).1
      have before := after (a + i) bound here
      omega
    | _ => simp [Event.invalidates] at invalidated
  omega

/-- The generations tell which of the running fetches began since the last invalidation. -/
theorem running_iff (traced : Traced start es s) {key : K} {fetch : ℕ} :
    Running es s key fetch ↔ ∃ ttl, s.calls fetch = some (.fetching key (s.generations key) ttl) := by
  constructor
  · rintro ⟨⟨a, ttl', began, after⟩, generation, ttl, running⟩
    obtain ⟨a', began', generation_eq⟩ := traced.running fetch key generation ttl running
    obtain rfl := traced.once a a' fetch key key ttl' ttl began began'
    rw [countP_take after, ← traced.counts key] at generation_eq
    exact ⟨ttl, generation_eq ▸ running⟩
  · rintro ⟨ttl, running⟩
    obtain ⟨a, began, generation_eq⟩ := traced.running fetch key _ ttl running
    rw [traced.counts key] at generation_eq
    exact ⟨⟨a, ttl, began, invalidate_before generation_eq⟩, _, ttl, running⟩

theorem running_iff_registered (traced : Traced start es s) (flight : Flight s) {key : K} {fetch : ℕ} :
    Running es s key fetch ↔ s.inFlight key = some fetch := by
  rw [running_iff traced]
  constructor
  · rintro ⟨ttl, running⟩
    exact flight.current key fetch ttl running
  · exact flight.registered key fetch

/-- Without cancellations no task depends on a cancelled one. -/
theorem calm_run (uncancelled : ∀ call, Event.cancel call ∉ es)
    (ran : run step (State.start K V E start) es = some s) : Calm es s ∧ ∀ call, s.cancelRequested call = false := by
  revert uncancelled
  refine run_trace (fun es s => (∀ call, Event.cancel call ∉ es) →
    Calm es s ∧ ∀ call, s.cancelRequested call = false) ?_ ?_ ran
  · intro _
    exact ⟨calm_start start, fun _ => rfl⟩
  · intro before middle e next reached held stepped uncancelled
    have only {call : ℕ} : e ≠ .cancel call := by
      rintro rfl
      exact uncancelled call (by simp)
    obtain ⟨calm, unrequested⟩ := held fun call member => uncancelled call (List.mem_append_left _ member)
    have undisturbed : Undisturbed middle e := by
      cases e with
      | cancel call => exact absurd rfl only
      | begin_ call key ttl => exact fun fetch _ _ => unrequested fetch
      | _ => trivial
    refine ⟨calm_step (traced_run reached) calm undisturbed stepped, ?_⟩
    intro call
    rcases step_cancelRequested stepped call with kept | ⟨rfl, _⟩
    · rw [kept, unrequested]
    · exact absurd rfl only

/-- A miss joins the running fetch. -/
private theorem step_joins (calm : Calm es s) (flight : Flight s) {call leader : ℕ} {key : K} {ttl : V → ℚ}
    (stepped : step s (.begin_ call key ttl) = some t) (registered : s.inFlight key = some leader) :
    t.calls call = some (.waiting leader) := by
  obtain ⟨ttl', running⟩ := flight.registered key leader registered
  have pending := calm.open_ leader key _ ttl' running
  have missing := flight.stale key leader registered
  cases steps_of_step stepped with
  | begin_ absent => simp [State.getOrFetch, missing, registered, State.join, State.setCall, pending, Future.outcome?]

/-- A call that joined a fetch waits for it, or is done through it. -/
private theorem step_stays (stepped : step s e = some t) {call leader : ℕ}
    (stays : s.calls call = some (.waiting leader) ∨ ∃ outcome, s.calls call = some (.done (.shared leader) outcome)) :
    t.calls call = some (.waiting leader) ∨ ∃ outcome, t.calls call = some (.done (.shared leader) outcome) := by
  rcases stays with waiting | ⟨outcome, done⟩
  · cases now : t.calls call with
    | none => exact absurd now (step_begun stepped (by simp [waiting]))
    | some status =>
      rcases step_calls stepped now with old | moved
      · exact .inl (old.symm.trans waiting)
      · cases moved with
        | hit absent => simp [waiting] at absent
        | joined absent => simp [waiting] at absent
        | joinedDone absent => simp [waiting] at absent
        | led absent => simp [waiting] at absent
        | returned running => simp [waiting] at running
        | spoiled running => simp [waiting] at running
        | failed running => simp [waiting] at running
        | aborted running => simp [waiting] at running
        | woken awaits =>
          obtain rfl : leader = _ := by simpa using waiting.symm.trans awaits
          exact .inr ⟨_, rfl⟩
        | dropped awaits =>
          obtain rfl : leader = _ := by simpa using waiting.symm.trans awaits
          exact .inr ⟨_, rfl⟩
  · exact .inr ⟨outcome, step_done stepped done⟩

/-- The calls that missed while a fetch ran. -/
private theorem joined_run (uncancelled : ∀ call, Event.cancel call ∉ es)
    (ran : run step (State.start K V E start) es = some s) {b call leader : ℕ} {key : K} {ttl : V → ℚ}
    {before : State K V E} (here : es[b]? = some (.begin_ call key ttl))
    (reached : run step (State.start K V E start) (es.take b) = some before)
    (running : Running (es.take b) before key leader) :
    s.calls call = some (.waiting leader) ∨ ∃ outcome, s.calls call = some (.done (.shared leader) outcome) := by
  have flight := flight_run reached
  obtain ⟨calm, _⟩ := calm_run (fun call member => uncancelled call (List.mem_of_mem_take member)) reached
  have registered := (running_iff_registered (traced_run reached) flight).mp running
  rw [← List.take_append_drop (b + 1) es, run_append] at ran
  obtain ⟨after, first, rest⟩ := Option.bind_eq_some_iff.mp ran
  have waits := step_joins calm flight ((run_take_succ here reached).mp first) registered
  exact @run_invariant _ _ _ (fun s => s.calls call = some (.waiting leader) ∨
    ∃ outcome, s.calls call = some (.done (.shared leader) outcome)) (fun _ _ _ stays stepped => step_stays stepped stays)
    _ _ _ (.inl waits) rest

/-- No fetch of the key is registered, and no entry of it is fresh. -/
def Idle (key : K) (s : State K V E) : Prop := s.inFlight key = none ∧ s.fresh key = none

/-- An idle key stays idle until its next call. -/
private theorem idle_step {key : K} (flight : Flight s) (idle : Idle key s) (stepped : step s e = some t)
    (other : ∀ call ttl, e ≠ .begin_ call key ttl) : Idle key t := by
  obtain ⟨unregistered, missing⟩ := idle
  constructor
  · apply Option.eq_none_iff_forall_ne_some.mpr
    intro fetch registered
    rcases step_inFlight stepped registered with ⟨old, _⟩ | ⟨ttl, began, _⟩
    · rw [unregistered] at old
      cases old
    · exact other fetch ttl began
  · apply Option.eq_none_iff_forall_ne_some.mpr
    intro entry fresh
    rcases step_fresh stepped fresh with old | ⟨_, ttl, running⟩
    · rw [missing] at old
      cases old
    · have registered := flight.current key _ ttl running
      rw [unregistered] at registered
      cases registered

/-- After its only running fetch has failed, a key is idle. -/
private theorem idle_failed {key : K} {fetch : ℕ} {err : E} (flight : Flight s) (registered : s.inFlight key = some fetch)
    (stepped : step s (.failed fetch err) = some t) : Idle key t := by
  constructor
  · apply Option.eq_none_iff_forall_ne_some.mpr
    intro fetch' still
    rcases step_inFlight stepped still with ⟨old, _⟩ | ⟨ttl, began, _⟩
    · rw [registered] at old
      cases old
      obtain ⟨ttl, running⟩ := flight.registered key fetch registered
      exact (step_ends stepped rfl running).2 still
    · cases began
  · apply Option.eq_none_iff_forall_ne_some.mpr
    intro entry fresh
    rcases step_fresh stepped fresh with old | ⟨returned, _⟩
    · rw [flight.stale key fetch registered] at old
      cases old
    · cases returned

/-- Without calls of the key it stays idle. -/
private theorem idle_run {key : K} (flight : Flight s) (idle : Idle key s) (ran : run step s es = some t)
    (others : ∀ e ∈ es, ∀ call ttl, e ≠ .begin_ call key ttl) : Flight t ∧ Idle key t := by
  have meets : StepsMeet step (fun _ e => ∀ call ttl, e ≠ .begin_ call key ttl) s es :=
    fun i e middle here _ => others e (List.mem_of_getElem? here)
  refine run_trace_meeting (fun _ s => Flight s ∧ Idle key s) ⟨flight, idle⟩ ?_ meets ran
  rintro _ middle e next _ ⟨flight, idle⟩ other stepped
  exact ⟨flight_step flight stepped, idle_step flight idle stepped other⟩

/-- What the cache keeps in every state of a run without cancellations. -/
structure SingleFlight (start : ℚ) (es : List (Event K V E)) (s : State K V E) : Prop where
  alone : ∀ key fetch fetch', Running es s key fetch → Running es s key fetch' → fetch = fetch'
  registered : ∀ key fetch, Running es s key fetch ↔ s.inFlight key = some fetch
  joins : ∀ (b : ℕ) call key ttl before leader, es[b]? = some (.begin_ call key ttl) →
    run step (State.start K V E start) (es.take b) = some before → Running (es.take b) before key leader →
    before.fresh key = none → Joined es s call leader
  failed : ∀ (j : ℕ) fetch err, es[j]? = some (.failed fetch err) →
    (∀ before after, run step (State.start K V E start) (es.take j) = some before →
      run step (State.start K V E start) (es.take (j + 1)) = some after → after.store = before.store) ∧
    (∀ key, s.inFlight key ≠ some fetch) ∧ ∀ key entry, s.store key = some entry → entry.fetch ≠ fetch
  fetchesAgain : ∀ (j b : ℕ) fetch err call key ttl before after, es[j]? = some (.failed fetch err) → j < b →
    es[b]? = some (.begin_ call key ttl) → (∀ q, j < q → q < b → ∀ other ttl', es[q]? ≠ some (.begin_ other key ttl')) →
    run step (State.start K V E start) (es.take j) = some before →
    run step (State.start K V E start) (es.take (b + 1)) = some after →
    Running (es.take j) before key fetch ∨ before.fresh key = none ∧ (∀ other, ¬Running (es.take j) before key other) →
    Running (es.take (b + 1)) after key call

/-- In every state that a run without cancellations reaches, whatever the order of calls, fetches ending and
invalidations, the cache has one fetch of a key in flight at a time. -/
theorem single_flight {start : ℚ} {es : List (Event K V E)} {s : State K V E}
    (uncancelled : ∀ call, Event.cancel call ∉ es) (ran : run step (State.start K V E start) es = some s) :
    SingleFlight start es s := by
  have traced := traced_run ran
  have flight := flight_run ran
  obtain ⟨calm, unrequested⟩ := calm_run uncancelled ran
  constructor
  case alone =>
    intro key fetch fetch' first second
    rw [running_iff_registered traced flight] at first second
    exact Option.some.inj (first.symm.trans second)
  case registered => exact fun key fetch => running_iff_registered traced flight
  case joins =>
    intro b call key ttl before leader here reached running missing
    rcases joined_run uncancelled ran here reached running with waits | ⟨outcome, received⟩
    · apply Joined.waiting waits
      intro outcome ended
      have done : (s.futures leader).outcome? = some outcome := by
        cases ended with
        | returned here =>
          rw [calm.fetched _ _ _ here]
          rfl
        | raised here =>
          rw [calm.failed _ _ _ here]
          rfl
      refine ⟨s.setCall call (.done (.shared leader) outcome), ?_, Function.update_self ..⟩
      simp [step, waits, done, unrequested call]
    · refine .done ?_ received
      cases calm.ended call _ outcome received (unrequested call) with
      | value serves fetched => exact .returned fetched
      | error serves failed => exact .raised failed
  case failed =>
    intro j fetch err here
    have raised := calm.failed j fetch err here
    refine ⟨?_, ?_, ?_⟩
    · intro before after reached next
      cases steps_of_step ((run_take_succ here reached).mp next) with
      | failed running => simp [State.fail, State.setCall]
    · intro key registered
      obtain ⟨ttl, running⟩ := flight.registered key fetch registered
      rw [calm.open_ fetch key _ ttl running] at raised
      cases raised
    · rintro key entry stored rfl
      obtain ⟨_, _, j', _, _, fetched, _⟩ := traced.stored key entry stored
      rw [calm.fetched j' _ _ fetched] at raised
      cases raised
  case fetchesAgain =>
    intro j b fetch err call key ttl before after here order next between reached reached' condition
    have flight := flight_run reached
    obtain ⟨failed, ran'⟩ := run_take ran (j + 1)
    have stepped := (run_take_succ here reached).mp ran'
    have idle : Idle key failed := by
      rcases condition with running | ⟨missing, none_⟩
      · exact idle_failed flight ((running_iff_registered (traced_run reached) flight).mp running) stepped
      · apply idle_step flight ⟨?_, missing⟩ stepped (by simp)
        apply Option.eq_none_iff_forall_ne_some.mpr
        intro other registered
        exact none_ other ((running_iff_registered (traced_run reached) flight).mpr registered)
    obtain ⟨last, ran''⟩ := run_take ran b
    have segment : run step failed ((es.take b).drop (j + 1)) = some last := by
      have whole := ran''
      rw [← List.take_append_drop (j + 1) (es.take b), run_append, List.take_take, Nat.min_eq_left (by omega), ran'] at whole
      exact whole
    have others : ∀ e ∈ (es.take b).drop (j + 1), ∀ other ttl', e ≠ .begin_ other key ttl' := by
      rintro e member other ttl' rfl
      obtain ⟨i, at_⟩ := List.mem_iff_getElem?.mp member
      rw [List.getElem?_drop, List.getElem?_take] at at_
      split at at_
      · next inside => exact between (j + 1 + i) (by omega) inside other ttl' at_
      · cases at_
    obtain ⟨_, unregistered, missing⟩ := idle_run (flight_step flight stepped) idle segment others
    rw [running_iff_registered (traced_run reached') (flight_run reached')]
    exact (step_led_registered ((run_take_succ next ran'').mp reached') missing unregistered).1

/-- The fetch of a detached leader fails while a newer one runs. -/
def detachedTape : List (Event String ℕ String) :=
  [.begin_ 0 "k" fun _ => 60, .invalidate "k", .begin_ 1 "k" fun _ => 60, .begin_ 2 "k" fun _ => 60, .failed 0 "down",
    .fetched 1 7, .wake 2]

theorem single_flight_detached :
    ∃ s, run step (State.start String ℕ String 0) detachedTape = some s ∧ SingleFlight 0 detachedTape s := by
  have enabled : (run step (State.start String ℕ String 0) detachedTape).isSome := by rfl
  have uncancelled : ∀ call, Event.cancel call ∉ detachedTape := by
    intro call member
    simp [detachedTape] at member
  exact ⟨_, (Option.some_get enabled).symm, single_flight uncancelled (Option.some_get enabled).symm⟩

end CliproxyUsage.Cache
