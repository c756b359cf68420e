import CliproxyUsage.Proofs.CacheTrace
import Mathlib.Tactic.Linarith

/-! # Invalidation and freshness of the cache

Along every run, the values that calls return and the entries that are stored come from fetches
that began after the last invalidation of their key before the call, and entries are served only
within their time to live.
-/

namespace CliproxyUsage.Cache

open Machine

variable {K V E : Type} [DecidableEq K]

/-- In every state that a run reaches: a value returned by a call that began after an invalidation
of its key comes from a fetch that began after it; no event of a fetch that began before an
invalidation of a key changes the entry of that key; and a call that serves an entry does so
within the time to live that its fetch was given, counted from the publication. -/
theorem cache_is_fresh {start : ℚ} {es : List (Event K V E)} {s : State K V E}
    (ran : run step (State.start K V E start) es = some s) :
    (∀ (q b call : ℕ) (key : K) (ttl : V → ℚ) (via : Via) (value : V),
      es[q]? = some (.invalidate key) → q < b → es[b]? = some (.begin_ call key ttl) →
      s.calls call = some (.done via (.returned value)) →
      ∃ (a : ℕ) (ttl' : V → ℚ) (j : ℕ), es[a]? = some (.begin_ via.fetch key ttl') ∧ q < a ∧
        es[j]? = some (.fetched via.fetch value)) ∧
    (∀ (a q fetch : ℕ) (own key : K) (ttl : V → ℚ) (e : Event K V E) (t : State K V E),
      es[a]? = some (.begin_ fetch own ttl) → es[q]? = some (.invalidate key) → a < q →
      e.call? = some fetch → step s e = some t → t.store key = s.store key) ∧
    ∀ (call : ℕ) (key : K) (ttl : V → ℚ) (fetch : ℕ) (value : V) (t : State K V E),
      step s (.begin_ call key ttl) = some t →
      t.calls call = some (.done (.stored fetch) (.returned value)) →
      ∃ (a : ℕ) (ttl' : V → ℚ) (j : ℕ), es[a]? = some (.begin_ fetch key ttl') ∧
        es[j]? = some (.fetched fetch value) ∧ elapsed es - elapsed (es.take j) < ttl' value := by
  have traced := traced_run ran
  refine ⟨?_, ?_, ?_⟩
  · intro q b call key ttl via value invalidated before began now
    obtain ⟨⟨b', key', ttl', began', a, ttlA, fetchBegan, after⟩, j, fetched⟩ := traced.done call via value now
    obtain rfl := traced.once b b' call key key' ttl ttl' began began'
    obtain ⟨_, rfl, _⟩ : call = call ∧ key = key' ∧ ttl = ttl' := by simpa using began.symm.trans began'
    exact ⟨a, ttlA, j, fetchBegan, after q before invalidated, fetched⟩
  · intro a q fetch own key ttl e t began invalidated before owner stepped
    rcases step_store_of_call owner stepped key with same | ⟨value, ttl', rfl, running⟩
    · exact same
    · -- The fetch would publish only if the generation had not moved since it began.
      obtain ⟨a', began', generation⟩ := traced.running _ _ _ _ running
      obtain rfl := traced.once a a' fetch own key ttl ttl' began began'
      rw [traced.counts key] at generation
      have bound := (List.getElem?_eq_some_iff.mp invalidated).1
      have early := invalidate_before generation q bound invalidated
      omega
  · intro call key ttl fetch value t stepped now
    rcases step_calls stepped now with old | moved
    · exact absurd ((step_begin stepped).1.symm.trans old) (by simp)
    · cases moved with
      | @hit _ _ entry absent found =>
        obtain ⟨stored, unexpired⟩ := fresh_eq_some.mp found
        obtain ⟨a, ttl', j, began, _, fetched, staleAt⟩ := traced.stored key entry stored
        refine ⟨a, ttl', j, began, fetched, ?_⟩
        rw [traced.clock, staleAt] at unexpired
        linarith

/-- A fetch that an invalidation overtakes, a call that fetches again, and one that joins it. -/
def overtakenTape : List (Event String ℕ String) :=
  [.begin_ 0 "k" fun _ => 60, .invalidate "k", .begin_ 1 "k" fun _ => 60, .begin_ 2 "k" fun _ => 60,
    .fetched 0 7, .tick 30, .fetched 1 8, .wake 2]

theorem cache_is_fresh_overtaken :
    ∃ s, run step (State.start String ℕ String 0) overtakenTape = some s ∧
      ∃ (a : ℕ) (ttl : ℕ → ℚ) (j : ℕ), overtakenTape[a]? = some (.begin_ 1 "k" ttl) ∧ 1 < a ∧
        overtakenTape[j]? = some (.fetched 1 8) := by
  have enabled : (run step (State.start String ℕ String 0) overtakenTape).isSome := by rfl
  refine ⟨_, (Option.some_get enabled).symm, ?_⟩
  exact (cache_is_fresh (Option.some_get enabled).symm).1 1 3 2 "k" _ (.shared 1) 8 rfl (by decide) rfl rfl

end CliproxyUsage.Cache
