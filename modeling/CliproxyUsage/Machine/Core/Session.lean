import CliproxyUsage.Machine.Core.Script

/-! # A request among commits

Writers commit between the statements of a request, and each statement sees the state that is
current when it runs. A session also remembers the states that its statements saw. Without a change
between its first and its last statement a session sees one state, and ends as the request does on
that state alone.
-/

namespace Machine

variable {σ ε α β : Type}

namespace Script

/-- What is left when the first statements are answered with one state each. -/
def after : List σ → Script σ ε α → Script σ ε α
  | s :: states, .select rest => (rest s).after states
  | _, script => script

/-- The value or the exception of an ended script. -/
def result? : Script σ ε α → Option (Except ε α)
  | .ret a => some (.ok a)
  | .raise e => some (.error e)
  | .select _ => none

/-- No statement is left. -/
def Ended : Script σ ε α → Prop
  | .select _ => False
  | _ => True

theorem after_concat {script : Script σ ε α} {states : List σ} {rest : σ → Script σ ε α}
    (left : script.after states = .select rest) (s : σ) : script.after (states ++ [s]) = rest s := by
  induction states generalizing script with
  | nil =>
    cases script with
    | ret a => contradiction
    | raise e => contradiction
    | select _ =>
      cases left
      simp only [List.nil_append, after]
  | cons state states ih =>
    cases script with
    | ret a => contradiction
    | raise e => contradiction
    | select next => exact ih left

/-- Statements answered with the state on which the rest runs change nothing. -/
theorem run_after {script : Script σ ε α} {states : List σ} {s : σ} (same : ∀ state ∈ states, state = s) :
    (script.after states).run s = script.run s := by
  induction states generalizing script with
  | nil => cases script <;> rfl
  | cons state states ih =>
    cases script with
    | ret a => rfl
    | raise e => rfl
    | select next =>
      obtain rfl := same state (List.mem_cons_self ..)
      exact ih fun other member => same other (List.mem_cons_of_mem _ member)

end Script

/-- A writer commits, or the request runs its next statement. -/
inductive Turn (β : Type) where
  | commit (batch : β)
  | select
deriving DecidableEq, Repr

structure Session (σ ε α : Type) where
  store : σ
  /-- The states that the statements saw, in their order. -/
  seen : List σ
  script : Script σ ε α

namespace Session

def start (store : σ) (request : Script σ ε α) : Session σ ε α := ⟨store, [], request⟩

def step (commit : σ → β → σ) : Session σ ε α → Turn β → Option (Session σ ε α)
  | ⟨store, seen, script⟩, .commit batch => some ⟨commit store batch, seen, script⟩
  | ⟨store, seen, .select rest⟩, .select => some ⟨store, seen ++ [store], rest store⟩
  | _, .select => none

/-- Commits keep the committed states within `P`, and none changes the store between the first and
the last statement. -/
def Quiet (commit : σ → β → σ) (P : σ → Prop) (session : Session σ ε α) : Turn β → Prop
  | .commit batch =>
    (session.seen = [] ∨ session.script.Ended ∨ commit session.store batch = session.store) ∧
      P (commit session.store batch)
  | .select => True

/-- An ended request raised nothing, and returned what it returns on one of the committed states. -/
def Serial (request : Script σ ε α) (session : Session σ ε α) : Prop :=
  match session.script with
  | .ret a => ∃ s, (s = session.store ∨ s ∈ session.seen) ∧ request.run s = .ok a
  | .raise _ => False
  | .select _ => True

/-- The result of an ended serial session is that of one committed state. -/
theorem Serial.result {request : Script σ ε α} {session : Session σ ε α} (serial : session.Serial request)
    {result : Except ε α} (ended : session.script.result? = some result) :
    ∃ s, (s = session.store ∨ s ∈ session.seen) ∧ request.run s = result := by
  rw [Serial] at serial
  cases left : session.script with
  | ret a =>
    rw [left] at serial ended
    cases ended
    exact serial
  | raise e => simp [left] at serial
  | select rest => simp [left, Script.result?] at ended

/-- What quiet turns keep. -/
structure SeesOne (P : σ → Prop) (request : Script σ ε α) (session : Session σ ε α) (s : σ) : Prop where
  script : session.script = request.after session.seen
  same : ∀ state ∈ session.seen, state = s
  current : session.script.Ended ∨ s = session.store
  committed : s = session.store ∨ s ∈ session.seen
  within : P s ∧ P session.store

variable {commit : σ → β → σ} {P : σ → Prop} {request : Script σ ε α} {session next : Session σ ε α} {turn : Turn β}

theorem seesOne_step {s : σ} (one : SeesOne P request session s) (quiet : Quiet commit P session turn)
    (stepped : step commit session turn = some next) : ∃ s', SeesOne P request next s' := by
  obtain ⟨store, seen, script⟩ := session
  cases turn with
  | commit batch =>
    cases stepped
    obtain ⟨idle | ended | same, within⟩ := quiet
    · exact ⟨_, one.script, by simp [show seen = [] from idle], .inr rfl, .inl rfl, within, within⟩
    · rcases one.committed with here | before
      · rcases seen with _ | ⟨first, rest⟩
        · exact ⟨_, one.script, by simp, .inr rfl, .inl rfl, within, within⟩
        · have first := one.same first (List.mem_cons_self ..)
          exact ⟨s, one.script, one.same, .inl ended, .inr (by simp [first]), one.within.1, within⟩
      · exact ⟨s, one.script, one.same, .inl ended, .inr before, one.within.1, within⟩
    · simp only at same
      rw [same]
      exact ⟨s, one⟩
  | select =>
    cases script with
    | ret a => contradiction
    | raise e => contradiction
    | select rest =>
      cases stepped
      obtain rfl : s = store := one.current.resolve_left id
      refine ⟨s, (Script.after_concat one.script.symm s).symm, ?_, .inr rfl, .inl rfl, one.within⟩
      intro state member
      rcases List.mem_append.mp member with before | now
      · exact one.same state before
      · exact List.mem_singleton.mp now

/-- A request that returns on every state within `P` ends a quiet session as it does on one
committed state. -/
theorem serial_of_quiet {store : σ} {turns : List (Turn β)} (total : ∀ s, P s → ∃ a, request.run s = .ok a)
    (first : P store) (quiet : StepsMeet (step commit) (Quiet commit P) (start store request) turns)
    (ran : run (step commit) (start store request) turns = some session) : Serial request session := by
  have begun : request.after [] = request := by cases request <;> rfl
  obtain ⟨s, one⟩ : ∃ s, SeesOne P request session s := by
    refine run_trace_meeting (fun _ session => ∃ s, SeesOne P request session s) ?_ ?_ quiet ran
    · exact ⟨store, begun.symm, by simp [start], .inr rfl, .inl rfl, first, first⟩
    · rintro _ middle turn next _ ⟨s, one⟩ ok stepped
      exact seesOne_step one ok stepped
  have value : session.script.run s = request.run s := by rw [one.script, Script.run_after one.same]
  obtain ⟨a, returned⟩ := total s one.within.1
  rw [Serial]
  cases left : session.script with
  | ret b =>
    rw [left] at value
    exact ⟨s, one.committed, value.symm⟩
  | raise e =>
    rw [left, returned] at value
    contradiction
  | select rest => trivial

end Session

end Machine
