import Mathlib.Data.List.Induction
import Mathlib.Algebra.Order.Ring.Nat

/-! # Runs of a partial labeled machine

A machine is a partial step function on states: `step s e = none` means that the event `e` cannot
happen in `s`. A run follows a finite event tape. Properties of the states reached follow from one
step lemma (`run_invariant`); properties that also look back at the tape follow from one lemma
about its last event (`run_trace`).
-/

namespace Machine

variable {σ ε : Type*} (step : σ → ε → Option σ)

/-- The state after a tape of events, if every event was enabled. -/
def run : σ → List ε → Option σ
  | s, [] => some s
  | s, e :: es => (step s e).bind fun next => run next es

variable {step}

theorem run_append (s : σ) (first second : List ε) :
    run step s (first ++ second) = (run step s first).bind fun middle => run step middle second := by
  induction first generalizing s with
  | nil => rfl
  | cons e es ih => simp only [List.cons_append, run, ih, Option.bind_assoc]

/-- The last event of a run is a step from the state that the rest reaches. -/
theorem run_concat {s t : σ} {es : List ε} {e : ε} :
    run step s (es ++ [e]) = some t ↔ ∃ middle, run step s es = some middle ∧ step middle e = some t := by
  simp only [run_append, Option.bind_eq_some_iff]
  constructor
  · rintro ⟨middle, before, last⟩
    obtain ⟨next, stepped, rest⟩ := Option.bind_eq_some_iff.mp last
    exact ⟨middle, before, (Option.some.inj rest) ▸ stepped⟩
  · rintro ⟨middle, before, stepped⟩
    exact ⟨middle, before, Option.bind_eq_some_iff.mpr ⟨t, stepped, rfl⟩⟩

/-- Every prefix of a run is a run. -/
theorem run_take {s t : σ} {es : List ε} (ran : run step s es = some t) (i : ℕ) :
    ∃ middle, run step s (es.take i) = some middle := by
  rw [← List.take_append_drop i es, run_append] at ran
  obtain ⟨middle, before, _⟩ := Option.bind_eq_some_iff.mp ran
  exact ⟨middle, before⟩

/-- The state after an event is one step from the state before it. -/
theorem run_take_succ {s middle t : σ} {es : List ε} {i : ℕ} {e : ε} (here : es[i]? = some e)
    (before : run step s (es.take i) = some middle) :
    run step s (es.take (i + 1)) = some t ↔ step middle e = some t := by
  rw [List.take_add_one, here, Option.toList_some, run_concat, before]
  simp

/-- A relation between tapes and states that the empty tape satisfies and that every enabled last
event keeps holds along every run. -/
theorem run_trace {s : σ} (P : List ε → σ → Prop) (start : P [] s)
    (keep : ∀ es middle e t, run step s es = some middle → P es middle → step middle e = some t →
      P (es ++ [e]) t)
    {es : List ε} {t : σ} (ran : run step s es = some t) : P es t := by
  induction es using List.reverseRecOn generalizing t with
  | nil => cases ran; exact start
  | append_singleton es e ih =>
    obtain ⟨middle, before, stepped⟩ := run_concat.mp ran
    exact keep es middle e t before (ih before) stepped

/-- An invariant that every enabled step keeps holds along every run. -/
theorem run_invariant {I : σ → Prop} (keep : ∀ s e t, I s → step s e = some t → I t)
    {s t : σ} {es : List ε} (start : I s) (ran : run step s es = some t) : I t :=
  run_trace (fun _ => I) start (fun _ middle e t _ held stepped => keep middle e t held stepped) ran

/-- Every step of a run meets a condition on its event and on the state before it. -/
def StepsMeet (step : σ → ε → Option σ) (ok : σ → ε → Prop) (s : σ) (es : List ε) : Prop :=
  ∀ i e middle, es[i]? = some e → run step s (es.take i) = some middle → ok middle e

theorem stepsMeet_nil {ok : σ → ε → Prop} {s : σ} : StepsMeet step ok s [] := by
  intro i e middle here
  simp at here

theorem stepsMeet_congr {ok ok' : σ → ε → Prop} (same : ∀ s e, ok s e ↔ ok' s e) {s : σ} {es : List ε} :
    StepsMeet step ok s es ↔ StepsMeet step ok' s es := by
  simp only [StepsMeet, same]

/-- The first step meets the condition, and so does the rest of the run after it. -/
theorem stepsMeet_cons {ok : σ → ε → Prop} {s : σ} {e : ε} {es : List ε} :
    StepsMeet step ok s (e :: es) ↔ ok s e ∧ ∀ t, step s e = some t → StepsMeet step ok t es := by
  constructor
  · intro meets
    refine ⟨meets 0 e s rfl rfl, ?_⟩
    intro t stepped i e' middle here reached
    apply meets (i + 1) e' middle here
    simp [run, stepped, reached]
  · rintro ⟨first, rest⟩ i e' middle here reached
    cases i with
    | zero =>
      cases here
      cases reached
      exact first
    | succ i =>
      obtain ⟨t, stepped, reached⟩ := Option.bind_eq_some_iff.mp reached
      exact rest t stepped i e' middle here reached

/-- The decision of `StepsMeet` along the run. -/
def meets (step : σ → ε → Option σ) (ok : σ → ε → Prop) [∀ s e, Decidable (ok s e)] : σ → List ε → Bool
  | _, [] => true
  | s, e :: es => decide (ok s e) && (step s e).all fun next => meets step ok next es

theorem meets_iff {ok : σ → ε → Prop} [∀ s e, Decidable (ok s e)] {s : σ} {es : List ε} :
    meets step ok s es = true ↔ StepsMeet step ok s es := by
  induction es generalizing s with
  | nil => exact ⟨fun _ => stepsMeet_nil, fun _ => rfl⟩
  | cons e es ih =>
    rw [meets, Bool.and_eq_true, decide_eq_true_eq, stepsMeet_cons, Option.all_eq_true]
    simp only [ih]

instance {ok : σ → ε → Prop} [∀ s e, Decidable (ok s e)] {s : σ} {es : List ε} :
    Decidable (StepsMeet step ok s es) := decidable_of_iff _ meets_iff

/-- A property is never lost along a run exactly when no step of the run loses it. -/
theorem kept_iff_stepsMeet {P : σ → Prop} {s : σ} {es : List ε} :
    (∀ i j before after, i ≤ j → run step s (es.take i) = some before →
      run step s (es.take j) = some after → P before → P after) ↔
    StepsMeet step (fun middle e => P middle → ∀ next, step middle e = some next → P next) s es := by
  constructor
  · intro kept i e middle here reached held next stepped
    apply kept i (i + 1) middle next (Nat.le_succ i) reached _ held
    exact (run_take_succ here reached).mpr stepped
  · intro meets i j before after le reached later held
    induction j, le using Nat.le_induction generalizing after with
    | base =>
      rw [reached, Option.some.injEq] at later
      exact later ▸ held
    | succ j le ih =>
      cases here : es[j]? with
      | none =>
        rw [List.take_add_one, here, Option.toList_none, List.append_nil] at later
        exact ih after later
      | some e =>
        obtain ⟨middle, earlier⟩ := run_take later j
        rw [List.take_take, Nat.min_eq_left (Nat.le_succ j)] at earlier
        exact meets j e middle here earlier (ih middle earlier) after ((run_take_succ here earlier).mp later)

/-- As `run_trace`, for runs whose steps all meet a condition. -/
theorem run_trace_meeting {ok : σ → ε → Prop} {s : σ} (P : List ε → σ → Prop) (start : P [] s)
    (keep : ∀ es middle e t, run step s es = some middle → P es middle → ok middle e →
      step middle e = some t → P (es ++ [e]) t)
    {es : List ε} {t : σ} (meets : StepsMeet step ok s es) (ran : run step s es = some t) : P es t := by
  induction es using List.reverseRecOn generalizing t with
  | nil => cases ran; exact start
  | append_singleton es e ih =>
    obtain ⟨middle, before, stepped⟩ := run_concat.mp ran
    have earlier : StepsMeet step ok s es := by
      intro i e' m here reached
      have bound := (List.getElem?_eq_some_iff.mp here).1
      apply meets i e' m
      · rwa [List.getElem?_append_left bound]
      · rwa [List.take_append_of_le_length bound.le]
    have last : ok middle e := by
      apply meets es.length e middle
      · simp
      · rwa [List.take_left']
        rfl
    exact keep es middle e t before (ih earlier before) last stepped

theorem stepsMeet_take {ok : σ → ε → Prop} {s : σ} {es : List ε} (meets : StepsMeet step ok s es) (i : ℕ) :
    StepsMeet step ok s (es.take i) := by
  intro k e middle here reached
  rw [List.getElem?_take] at here
  split at here
  · next before =>
    rw [List.take_take, Nat.min_eq_left before.le] at reached
    exact meets k e middle here reached
  · cases here

/-- A reflexive and transitive relation that every step keeps, given an invariant and the condition of
the steps, relates each state of a run to the later ones. -/
theorem run_related {ok : σ → ε → Prop} {R : σ → σ → Prop} {I : σ → Prop} (refl : ∀ s, R s s)
    (trans : ∀ {s t u}, R s t → R t u → R s u)
    (keep : ∀ s e t, I s → ok s e → step s e = some t → I t ∧ R s t)
    {s : σ} {es : List ε} (start : I s) (meets : StepsMeet step ok s es) {i j : ℕ} (le : i ≤ j) {before after : σ}
    (earlier : run step s (es.take i) = some before) (later : run step s (es.take j) = some after) :
    R before after := by
  have related : I after ∧ ∀ k middle, run step s ((es.take j).take k) = some middle → R middle after := by
    refine run_trace_meeting (fun es t => I t ∧ ∀ k middle, run step s (es.take k) = some middle → R middle t)
      ?_ ?_ (stepsMeet_take meets j) later
    · refine ⟨start, ?_⟩
      intro k middle reached
      rw [List.take_nil] at reached
      cases reached
      exact refl s
    · rintro es middle e t reached ⟨held, past⟩ met stepped
      obtain ⟨next, one⟩ := keep middle e t held met stepped
      refine ⟨next, ?_⟩
      intro k state there
      rcases Nat.lt_or_ge es.length k with beyond | within
      · rw [List.take_of_length_le (by simp only [List.length_append, List.length_singleton]; omega),
          run_concat.mpr ⟨middle, reached, stepped⟩] at there
        cases there
        exact refl t
      · rw [List.take_append_of_le_length within] at there
        exact trans (past k state there) one
  apply related.2 i before
  rwa [List.take_take, Nat.min_eq_left le]

/-- An event at a given position of the tape plus one more event. -/
theorem getElem?_concat {es : List ε} {e last : ε} {i : ℕ} :
    (es ++ [last])[i]? = some e ↔ es[i]? = some e ∨ i = es.length ∧ last = e := by
  rcases lt_trichotomy i es.length with before | here | after
  · simp [List.getElem?_append_left before, before.ne]
  · subst here; simp
  · have past : (es ++ [last])[i]? = none := by simp; omega
    have absent : es[i]? = none := by simp; omega
    simp [past, absent, after.ne']

end Machine
