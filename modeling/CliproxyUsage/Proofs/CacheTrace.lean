import CliproxyUsage.Proofs.Cache

/-! # What a tape says about the state of the cache

The invariant relates the state to the tape: generations count invalidations, so an unchanged
generation means that none has happened since the fetch began. Values, entries and joined fetches
are traced back to the events they come from.
-/

namespace CliproxyUsage.Cache

open Machine

variable {K V E : Type} [DecidableEq K]

/-- The fetch that `fetch` leads for `key` began after every invalidation of `key` among the first
`before` events. -/
def BeganAfter (es : List (Event K V E)) (fetch : ℕ) (key : K) (before : ℕ) : Prop :=
  ∃ (a : ℕ) (ttl : V → ℚ), es[a]? = some (Event.begin_ fetch key ttl) ∧
    ∀ q < before, es[q]? = some (Event.invalidate key) → q < a

/-- The call joined or served a fetch that began after the invalidations before the call. -/
def Serves (es : List (Event K V E)) (call fetch : ℕ) : Prop :=
  ∃ (b : ℕ) (key : K) (ttl : V → ℚ), es[b]? = some (Event.begin_ call key ttl) ∧ BeganAfter es fetch key b

/-- The entry was published by a fetch that began after every invalidation of its key. -/
def Published (start : ℚ) (es : List (Event K V E)) (key : K) (entry : Entry V) : Prop :=
  ∃ (a : ℕ) (ttl : V → ℚ) (j : ℕ), es[a]? = some (Event.begin_ entry.fetch key ttl) ∧
    (∀ q < es.length, es[q]? = some (Event.invalidate key) → q < a) ∧
    es[j]? = some (Event.fetched entry.fetch entry.value) ∧
    entry.staleAt = start + elapsed (es.take j) + ttl entry.value

/-- What a tape says about the state it leads to. -/
structure Traced (start : ℚ) (es : List (Event K V E)) (s : State K V E) : Prop where
  clock : s.now = start + elapsed es
  counts : ∀ key, s.generations key = es.countP (Event.invalidates key)
  begun : ∀ (b : ℕ) call key ttl, es[b]? = some (Event.begin_ call key ttl) → s.calls call ≠ none
  once : ∀ (b b' : ℕ) call key key' ttl ttl', es[b]? = some (Event.begin_ call key ttl) →
    es[b']? = some (Event.begin_ call key' ttl') → b = b'
  running : ∀ call key generation ttl, s.calls call = some (.fetching key generation ttl) →
    ∃ a : ℕ, es[a]? = some (Event.begin_ call key ttl) ∧ generation = (es.take a).countP (Event.invalidates key)
  registered : ∀ key fetch, s.inFlight key = some fetch → BeganAfter es fetch key es.length
  stored : ∀ key entry, s.store key = some entry → Published start es key entry
  results : ∀ fetch value, s.futures fetch = .result value → ∃ j : ℕ, es[j]? = some (Event.fetched fetch value)
  waiting : ∀ call fetch, s.calls call = some (.waiting fetch) → Serves es call fetch
  done : ∀ call via value, s.calls call = some (.done via (.returned value)) →
    Serves es call via.fetch ∧ ∃ j : ℕ, es[j]? = some (Event.fetched via.fetch value)

section Tape

variable {es : List (Event K V E)} {e : Event K V E}

omit [DecidableEq K] in
private theorem elapsed_concat : elapsed (es ++ [e]) = elapsed es + elapsed [e] := by
  simp [elapsed]

omit [DecidableEq K] in
theorem later {i : ℕ} {x : Event K V E} (here : es[i]? = some x) : (es ++ [e])[i]? = some x :=
  getElem?_concat.mpr (.inl here)

omit [DecidableEq K] in
theorem take_concat {i : ℕ} {x : Event K V E} (here : es[i]? = some x) :
    (es ++ [e]).take i = es.take i := by
  obtain ⟨bound, _⟩ := List.getElem?_eq_some_iff.mp here
  rw [List.take_append_of_le_length bound.le]

omit [DecidableEq K] in
private theorem BeganAfter.later {fetch before : ℕ} {key : K} (began : BeganAfter es fetch key before)
    (bound : before ≤ es.length) : BeganAfter (es ++ [e]) fetch key before := by
  obtain ⟨a, ttl, here, after⟩ := began
  refine ⟨a, ttl, getElem?_concat.mpr (.inl here), ?_⟩
  intro q early invalidated
  apply after q early
  rwa [List.getElem?_append_left (by omega)] at invalidated

omit [DecidableEq K] in
theorem Serves.later {call fetch : ℕ} (serves : Serves es call fetch) : Serves (es ++ [e]) call fetch := by
  obtain ⟨b, key, ttl, here, began⟩ := serves
  have bound := (List.getElem?_eq_some_iff.mp here).1
  exact ⟨b, key, ttl, getElem?_concat.mpr (.inl here), began.later bound.le⟩

/-- An event that does not invalidate the key leaves its last invalidation where it was. -/
private theorem invalidate_concat {key : K} (other : e.invalidates key = false) {a : ℕ}
    (after : ∀ q < es.length, es[q]? = some (Event.invalidate key) → q < a) :
    ∀ q < (es ++ [e]).length, (es ++ [e])[q]? = some (.invalidate key) → q < a := by
  intro q _ invalidated
  rcases getElem?_concat.mp invalidated with old | ⟨_, rfl⟩
  · exact after q (List.getElem?_eq_some_iff.mp old).1 old
  · simp [Event.invalidates] at other

/-- When an interval of the tape adds nothing to the count, nothing in it invalidates the key. -/
theorem invalidate_before {key : K} {a : ℕ}
    (same : es.countP (Event.invalidates key) = (es.take a).countP (Event.invalidates key)) :
    ∀ q < es.length, es[q]? = some (Event.invalidate key) → q < a := by
  intro q bound invalidated
  by_contra past
  have cut : es.countP (Event.invalidates key) = (es.take a).countP (Event.invalidates key) +
      (es.drop a).countP (Event.invalidates key) := by
    rw [← List.countP_append, List.take_append_drop]
  have none_ : (es.drop a).countP (Event.invalidates key) = 0 := by omega
  have member : Event.invalidate key ∈ es.drop a := by
    have shifted : (es.drop a)[q - a]? = some (Event.invalidate key) := by
      rw [List.getElem?_drop, ← invalidated]
      congr 1
      omega
    exact List.mem_of_getElem? shifted
  have counted := List.countP_eq_zero.mp none_ _ member
  simp [Event.invalidates] at counted

end Tape

section Step

variable {start : ℚ} {es : List (Event K V E)} {e : Event K V E} {s t : State K V E}

omit [DecidableEq K] in
/-- A future hands out a value only when it holds it. -/
theorem result_of_outcome {fetch : ℕ} {value : V}
    (done : (s.futures fetch).outcome? = some (.returned value)) : s.futures fetch = .result value := by
  cases future : s.futures fetch with
  | pending => simp [future, Future.outcome?] at done
  | result v => simpa [future, Future.outcome?] using done
  | exception exc => simp [future, Future.outcome?] at done
  | cancelled => simp [future, Future.outcome?] at done

private theorem traced_done (traced : Traced start es s) (stepped : step s e = some t) {call : ℕ} {via : Via}
    {value : V} (now : t.calls call = some (.done via (.returned value))) :
    Serves (es ++ [e]) call via.fetch ∧ ∃ j : ℕ, (es ++ [e])[j]? = some (Event.fetched via.fetch value) := by
  rcases step_calls stepped now with old | moved
  · obtain ⟨serves, j, fetched⟩ := traced.done call via value old
    exact ⟨serves.later, j, later fetched⟩
  · cases moved with
    | @hit key ttl entry absent found =>
      obtain ⟨a, _, j, began, after, fetched, _⟩ := traced.stored key entry (fresh_eq_some.mp found).1
      refine ⟨⟨es.length, key, ttl, by simp, a, _, later began, ?_⟩, j, later fetched⟩
      intro q early invalidated
      rw [List.getElem?_append_left early] at invalidated
      exact after q early invalidated
    | @joinedDone key ttl fetch _ absent missing registered done =>
      obtain ⟨j, fetched⟩ := traced.results fetch value (result_of_outcome done)
      have began := traced.registered key fetch registered
      exact ⟨⟨es.length, key, ttl, by simp, began.later le_rfl⟩, j, later fetched⟩
    | @returned key generation ttl _ running open_ =>
      obtain ⟨a, began, _⟩ := traced.running call key generation ttl running
      exact ⟨⟨a, key, ttl, later began, a, ttl, later began, fun q early _ => early⟩, es.length, by simp [Via.fetch]⟩
    | @woken fetch _ waiting done kept =>
      obtain ⟨j, fetched⟩ := traced.results fetch value (result_of_outcome done)
      exact ⟨(traced.waiting call fetch waiting).later, j, later fetched⟩

private theorem traced_stored (traced : Traced start es s) (stepped : step s e = some t) {key : K}
    {entry : Entry V} (now : t.store key = some entry) : Published start (es ++ [e]) key entry := by
  rcases step_store stepped now with ⟨old, other⟩ | ⟨ttl, rfl, running, staleAt⟩
  · obtain ⟨a, ttl, j, began, after, fetched, staleAt⟩ := traced.stored key entry old
    refine ⟨a, ttl, j, later began, invalidate_concat other after, later fetched, ?_⟩
    rwa [take_concat fetched]
  · -- The generation is current, so no invalidation has come since the fetch began.
    obtain ⟨a, began, generation⟩ := traced.running _ _ _ _ running
    rw [traced.counts key] at generation
    refine ⟨a, ttl, es.length, later began, invalidate_concat rfl (invalidate_before generation), by simp, ?_⟩
    rw [staleAt, traced.clock, List.take_left']
    rfl

/-- Every event keeps what the tape says about the state. -/
theorem traced_step (traced : Traced start es s) (stepped : step s e = some t) : Traced start (es ++ [e]) t where
  clock := by rw [step_now stepped, traced.clock, elapsed_concat, add_assoc]
  counts key := by
    rw [step_generations stepped, traced.counts key, List.countP_append, List.countP_singleton]
  begun b call key ttl here := by
    rcases getElem?_concat.mp here with old | ⟨_, rfl⟩
    · exact step_begun stepped (traced.begun b call key ttl old)
    · exact (step_begin stepped).2
  once b b' call key key' ttl ttl' here there := by
    rcases getElem?_concat.mp here with old | ⟨rfl, rfl⟩
    · rcases getElem?_concat.mp there with old' | ⟨rfl, rfl⟩
      · exact traced.once b b' call key key' ttl ttl' old old'
      · exact absurd (step_begin stepped).1 (traced.begun b call key ttl old)
    · rcases getElem?_concat.mp there with old' | ⟨rfl, _⟩
      · exact absurd (step_begin stepped).1 (traced.begun b' call key' ttl' old')
      · rfl
  running call key generation ttl now := by
    rcases step_calls stepped now with old | moved
    · obtain ⟨a, began, count⟩ := traced.running call key generation ttl old
      exact ⟨a, later began, by rwa [take_concat began]⟩
    · cases moved with
      | led absent missing unregistered =>
        refine ⟨es.length, by simp, ?_⟩
        rw [List.take_left', traced.counts key]
        rfl
  registered key fetch now := by
    rcases step_inFlight stepped now with ⟨old, other⟩ | ⟨ttl, rfl, _⟩
    · obtain ⟨a, ttl, began, after⟩ := traced.registered key fetch old
      exact ⟨a, ttl, later began, invalidate_concat other after⟩
    · refine ⟨es.length, ttl, by simp, ?_⟩
      intro q _ invalidated
      rcases getElem?_concat.mp invalidated with old | ⟨_, impossible⟩
      · exact (List.getElem?_eq_some_iff.mp old).1
      · contradiction
  stored key entry now := traced_stored traced stepped now
  results fetch value now := by
    rcases step_futures stepped fetch with kept | ⟨fresh, _⟩ | ⟨_, changed⟩
    · obtain ⟨j, fetched⟩ := traced.results fetch value (kept ▸ now)
      exact ⟨j, later fetched⟩
    · rw [fresh] at now
      contradiction
    · rcases changed with ⟨_, rfl, result⟩ | ⟨_, _, exc⟩ | ⟨_, _, exc⟩ | ⟨_, _, _, cancelled⟩
      · rw [result] at now
        cases now
        exact ⟨es.length, by simp⟩
      · rw [exc] at now
        contradiction
      · rw [exc] at now
        contradiction
      · rw [cancelled] at now
        contradiction
  waiting call fetch now := by
    rcases step_calls stepped now with old | moved
    · exact (traced.waiting call fetch old).later
    · cases moved with
      | @joined key ttl _ absent missing registered pending =>
        exact ⟨es.length, key, ttl, by simp, (traced.registered key fetch registered).later le_rfl⟩
  done call via value now := traced_done traced stepped now

end Step

theorem traced_start (start : ℚ) : Traced start [] (State.start K V E start) where
  clock := by simp [State.start, elapsed]
  counts _ := rfl
  begun _ _ _ _ here := by simp at here
  once _ _ _ _ _ _ _ here := by simp at here
  running _ _ _ _ now := by simp [State.start] at now
  registered _ _ now := by simp [State.start] at now
  stored _ _ now := by simp [State.start] at now
  results _ _ now := by simp [State.start] at now
  waiting _ _ now := by simp [State.start] at now
  done _ _ _ now := by simp [State.start] at now

theorem traced_run {start : ℚ} {es : List (Event K V E)} {s : State K V E}
    (ran : run step (State.start K V E start) es = some s) : Traced start es s :=
  run_trace (Traced start) (traced_start start) (fun _ _ _ _ _ held stepped => traced_step held stepped) ran

end CliproxyUsage.Cache
