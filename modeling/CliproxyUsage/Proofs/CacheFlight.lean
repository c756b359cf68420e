import CliproxyUsage.Proofs.Cache
import Mathlib.Algebra.Order.Ring.Rat

/-! # The registered fetches

Detached leaders of earlier generations run the same code as the registered one when their fetch
ends. The table holds exactly the running fetches of the current generations, whatever order the
others end in, and no key with a registered fetch has a fresh entry.
-/

namespace CliproxyUsage.Cache

open Machine

variable {K V E : Type} [DecidableEq K] {s t : State K V E} {e : Event K V E}

theorem step_now_le (stepped : step s e = some t) : s.now ≤ t.now := by
  rw [step_now stepped]
  cases steps_of_step stepped with
  | tick forward => simpa [elapsed] using forward
  | _ => simp [elapsed]

/-- Only its own end and an invalidation of its key unregister a fetch. -/
theorem step_registered (stepped : step s e = some t) {key : K} {fetch : ℕ} (registered : s.inFlight key = some fetch)
    (running : ¬e.Ends fetch) (valid : e.invalidates key = false) : t.inFlight key = some fetch := by
  have kept {call : ℕ} {owner : K} (other : call ≠ fetch) : (s.release call owner).inFlight key = some fetch := by
    rw [release_inFlight]
    split
    · next released =>
      obtain ⟨rfl, own⟩ := released
      rw [registered] at own
      exact absurd (Option.some.inj own).symm other
    · exact registered
  cases steps_of_step stepped with
  | @begin_ call owner ttl absent =>
    rw [State.getOrFetch]
    split
    · exact registered
    · split
      · exact registered
      · next unregistered =>
        have other : key ≠ owner := by
          rintro rfl
          simp [registered] at unregistered
        simpa [State.lead, other] using registered
  | fetched leads =>
    rw [(succeed_fields ..).2.2.1]
    exact kept running
  | failed leads => exact kept running
  | aborted leads requested => exact kept running
  | wake waiting done => exact registered
  | invalidate owner =>
    have other : owner ≠ key := by simpa [Event.invalidates] using valid
    simpa [State.invalidate, Function.update_of_ne other.symm] using registered
  | tick forward => exact registered
  | cancel call =>
    rw [State.cancel]
    split <;> exact registered

/-- A new leader registers its fetch. -/
theorem step_led_registered {call : ℕ} {key : K} {ttl : V → ℚ} (stepped : step s (.begin_ call key ttl) = some t)
    (missing : s.fresh key = none) (unregistered : s.inFlight key = none) :
    t.inFlight key = some call ∧ t.calls call = some (.fetching key (s.generations key) ttl) := by
  cases steps_of_step stepped with
  | begin_ absent => simp [State.getOrFetch, missing, unregistered, State.lead, State.setCall]

/-- An entry that is fresh after a step was fresh before it, or its fetch ended with the step. -/
theorem step_fresh (stepped : step s e = some t) {key : K} {entry : Entry V} (fresh : t.fresh key = some entry) :
    s.fresh key = some entry ∨
      e = .fetched entry.fetch entry.value ∧ ∃ ttl, s.calls entry.fetch = some (.fetching key (s.generations key) ttl) := by
  obtain ⟨stored, unexpired⟩ := fresh_eq_some.mp fresh
  rcases step_store stepped stored with ⟨old, _⟩ | ⟨ttl, returned, running, _⟩
  · exact .inl (fresh_eq_some.mpr ⟨old, (step_now_le stepped).trans_lt unexpired⟩)
  · exact .inr ⟨returned, ttl, running⟩

/-- What every step keeps. -/
structure Flight (s : State K V E) : Prop where
  registered : ∀ key fetch, s.inFlight key = some fetch → ∃ ttl,
    s.calls fetch = some (.fetching key (s.generations key) ttl)
  current : ∀ key fetch ttl, s.calls fetch = some (.fetching key (s.generations key) ttl) →
    s.inFlight key = some fetch
  bounded : ∀ key fetch generation ttl, s.calls fetch = some (.fetching key generation ttl) →
    generation ≤ s.generations key
  stale : ∀ key fetch, s.inFlight key = some fetch → s.fresh key = none

theorem flight_step (flight : Flight s) (stepped : step s e = some t) : Flight t where
  registered key fetch now := by
    rcases step_inFlight stepped now with ⟨old, valid⟩ | ⟨ttl, rfl, running⟩
    · obtain ⟨ttl, running⟩ := flight.registered key fetch old
      rcases step_fetching stepped running with still | ends
      · refine ⟨ttl, ?_⟩
        rw [step_generations stepped, valid]
        exact still
      · exact absurd now (step_ends stepped ends running).2
    · refine ⟨ttl, ?_⟩
      rw [step_generations stepped]
      exact running
  current key fetch ttl now := by
    have moved := step_generations stepped key
    generalize t.generations key = generation at now moved
    rcases step_calls stepped now with old | led
    · have bound := flight.bounded key fetch _ ttl old
      have valid : e.invalidates key = false := by
        by_contra invalidated
        rw [Bool.not_eq_false] at invalidated
        rw [moved, invalidated, if_pos rfl] at bound
        omega
      rw [valid, if_neg Bool.false_ne_true, add_zero] at moved
      have before := flight.current key fetch ttl (moved ▸ old)
      apply step_registered stepped before ?_ valid
      intro ends
      obtain ⟨⟨outcome, done⟩, _⟩ := step_ends stepped ends old
      rw [now] at done
      cases done
    · cases led with
      | led absent missing unregistered => exact (step_led_registered stepped missing unregistered).1
  bounded key fetch generation ttl now := by
    have moved := step_generations stepped key
    rcases step_calls stepped now with old | led
    · have bound := flight.bounded key fetch generation ttl old
      omega
    · cases led with
      | led absent missing unregistered => omega
  stale key fetch now := by
    apply Option.eq_none_iff_forall_ne_some.mpr
    intro entry fresh
    rcases step_inFlight stepped now with ⟨old, valid⟩ | ⟨ttl, rfl, running⟩
    · rcases step_fresh stepped fresh with before | ⟨rfl, ttl, running⟩
      · rw [flight.stale key fetch old] at before
        cases before
      · -- Only the registered fetch can publish, and it is not registered any more.
        have same := flight.current key _ ttl running
        rw [old] at same
        cases same
        exact absurd now (step_ends stepped rfl running).2
    · rcases step_fresh stepped fresh with before | ⟨other, _⟩
      · rcases step_calls stepped running with old | led
        · rw [(step_begin stepped).1] at old
          cases old
        · cases led with
          | led absent missing unregistered =>
            rw [missing] at before
            cases before
      · cases other

omit [DecidableEq K] in
theorem flight_start (start : ℚ) : Flight (State.start K V E start) where
  registered _ _ now := by simp [State.start] at now
  current _ _ _ now := by simp [State.start] at now
  bounded _ _ _ _ now := by simp [State.start] at now
  stale _ _ now := by simp [State.start] at now

theorem flight_run {start : ℚ} {es : List (Event K V E)} (ran : run step (State.start K V E start) es = some s) :
    Flight s :=
  run_invariant (fun _ _ _ held stepped => flight_step held stepped) (flight_start start) ran

end CliproxyUsage.Cache
