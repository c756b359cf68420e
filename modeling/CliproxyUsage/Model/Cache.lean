import CliproxyUsage.Machine.Core.Run
import Mathlib.Algebra.Ring.Rat
import Mathlib.Logic.Function.Basic

/-! # The TTL cache and its shared fetches

`get_or_fetch` as the steps between which the event loop may switch tasks. The code under the lock
never suspends, so everything up to the first `await`, and everything after it, is one step. A call
serves a fresh entry, joins the future of a running fetch, or leads a fetch of its own; a future is
named by the call that leads it. Entries remember that call, which the code does not store.
-/

namespace CliproxyUsage.Cache

/-- What a call can raise: the exception of a fetch, or one of `asyncio`. -/
inductive Exc (E : Type) where
  | fetch (e : E)
  | cancelled
  | invalidState
deriving DecidableEq, Repr

inductive Outcome (V E : Type) where
  | returned (value : V)
  | raised (exc : Exc E)
deriving DecidableEq, Repr

inductive Future (V E : Type) where
  | pending
  | result (value : V)
  | exception (exc : Exc E)
  | cancelled
deriving DecidableEq, Repr

/-- What awaiting a future gives at once, when it is done. -/
def Future.outcome? {V E : Type} : Future V E → Option (Outcome V E)
  | .pending => none
  | .result value => some (.returned value)
  | .exception exc => some (.raised exc)
  | .cancelled => some (.raised .cancelled)

/-- Complete a future with `done` unless it is done already. -/
def settle {V E : Type} (futures : ℕ → Future V E) (fetch : ℕ) (done : Future V E) : ℕ → Future V E :=
  match futures fetch with
  | .pending => Function.update futures fetch done
  | _ => futures

structure Entry (V : Type) where
  value : V
  staleAt : ℚ
  /-- The call whose fetch published the entry. -/
  fetch : ℕ

/-- Where the outcome of a call came from. -/
inductive Via where
  | stored (fetch : ℕ)
  | shared (fetch : ℕ)
deriving DecidableEq, Repr

def Via.fetch : Via → ℕ
  | .stored fetch => fetch
  | .shared fetch => fetch

/-- The progress of one call of `get_or_fetch`. -/
inductive Call (K V E : Type) where
  | fetching (key : K) (generation : ℕ) (ttl : V → ℚ)
  | waiting (fetch : ℕ)
  | done (via : Via) (outcome : Outcome V E)

structure State (K V E : Type) where
  now : ℚ
  store : K → Option (Entry V)
  inFlight : K → Option ℕ
  generations : K → ℕ
  futures : ℕ → Future V E
  calls : ℕ → Option (Call K V E)
  cancelRequested : ℕ → Bool

inductive Event (K V E : Type) where
  /-- A task calls `get_or_fetch(key, fetch, ttl=ttl)`. -/
  | begin_ (call : ℕ) (key : K) (ttl : V → ℚ)
  /-- The fetch that the call leads returns. -/
  | fetched (call : ℕ) (value : V)
  /-- The fetch that the call leads raises. -/
  | failed (call : ℕ) (e : E)
  /-- The fetch raises the `CancelledError` of its cancelled leader. -/
  | aborted (call : ℕ)
  /-- A waiting task resumes after its future is done. -/
  | wake (call : ℕ)
  | invalidate (key : K)
  | tick (seconds : ℚ)
  /-- The task of a call is cancelled. -/
  | cancel (call : ℕ)

variable {K V E : Type} [DecidableEq K]

def State.start (K V E : Type) (now : ℚ) : State K V E where
  now
  store _ := none
  inFlight _ := none
  generations _ := 0
  futures _ := .pending
  calls _ := none
  cancelRequested _ := false

namespace State

def setCall (s : State K V E) (call : ℕ) (status : Call K V E) : State K V E :=
  { s with calls := Function.update s.calls call (some status) }

/-- The entry that a call may serve now. -/
def fresh (s : State K V E) (key : K) : Option (Entry V) :=
  (s.store key).filter fun entry => decide (s.now < entry.staleAt)

/-- `await fut` on the future of another call's fetch. -/
def join (s : State K V E) (call fetch : ℕ) : State K V E :=
  s.setCall call (match (s.futures fetch).outcome? with
    | some outcome => .done (.shared fetch) outcome
    | none => .waiting fetch)

/-- Register a new future and start the fetch. -/
def lead (s : State K V E) (call : ℕ) (key : K) (ttl : V → ℚ) : State K V E :=
  { s.setCall call (.fetching key (s.generations key) ttl) with
    inFlight := Function.update s.inFlight key (some call)
    futures := Function.update s.futures call .pending }

def getOrFetch (s : State K V E) (call : ℕ) (key : K) (ttl : V → ℚ) : State K V E :=
  match s.fresh key with
  | some entry => s.setCall call (.done (.stored entry.fetch) (.returned entry.value))
  | none =>
    match s.inFlight key with
    | some fetch => s.join call fetch
    | none => s.lead call key ttl

/-- Remove the registration of a fetch, if it still is the registered one. -/
def release (s : State K V E) (call : ℕ) (key : K) : State K V E :=
  if s.inFlight key = some call then { s with inFlight := Function.update s.inFlight key none } else s

/-- The `except` branch of the leader; a future that is already done is left alone. -/
def fail (s : State K V E) (call : ℕ) (key : K) (exc : Exc E) : State K V E :=
  let released := s.release call key
  { released.setCall call (.done (.shared call) (.raised exc)) with
    futures := settle s.futures call (.exception exc) }

/-- Store a value unless its key was invalidated since the fetch began. -/
def publish (s : State K V E) (call : ℕ) (key : K) (generation : ℕ) (ttl : V → ℚ) (value : V) : State K V E :=
  if s.generations key = generation then
    { s with store := Function.update s.store key (some ⟨value, s.now + ttl value, call⟩) }
  else s

/-- The rest of the leader after its fetch returned. `set_result` raises on a future that is
already done. -/
def succeed (s : State K V E) (call : ℕ) (key : K) (generation : ℕ) (ttl : V → ℚ) (value : V) : State K V E :=
  let published := (s.publish call key generation ttl value).release call key
  match s.futures call with
  | .pending =>
    { published.setCall call (.done (.shared call) (.returned value)) with
      futures := Function.update s.futures call (.result value) }
  | _ => published.setCall call (.done (.shared call) (.raised .invalidState))

/-- Remove the key from the cache so the next call fetches again. -/
def invalidate (s : State K V E) (key : K) : State K V E :=
  { s with
    store := Function.update s.store key none
    inFlight := Function.update s.inFlight key none
    generations := Function.update s.generations key (s.generations key + 1) }

/-- `task.cancel()` during a call: a task that awaits a pending future cancels that future. -/
def cancel (s : State K V E) (call : ℕ) : State K V E :=
  match s.calls call with
  | some (.fetching _ _ _) => { s with cancelRequested := Function.update s.cancelRequested call true }
  | some (.waiting fetch) =>
    { s with
      cancelRequested := Function.update s.cancelRequested call true
      futures := settle s.futures fetch .cancelled }
  | _ => s

end State

/-- One step of the event loop, or none when the event cannot happen. -/
def step (s : State K V E) : Event K V E → Option (State K V E)
  | .begin_ call key ttl =>
    match s.calls call with
    | none => some (s.getOrFetch call key ttl)
    | some _ => none
  | .fetched call value =>
    match s.calls call with
    | some (.fetching key generation ttl) => some (s.succeed call key generation ttl value)
    | _ => none
  | .failed call e =>
    match s.calls call with
    | some (.fetching key _ _) => some (s.fail call key (.fetch e))
    | _ => none
  | .aborted call =>
    match s.calls call with
    | some (.fetching key _ _) => if s.cancelRequested call then some (s.fail call key .cancelled) else none
    | _ => none
  | .wake call =>
    match s.calls call with
    | some (.waiting fetch) =>
      (s.futures fetch).outcome?.map fun outcome =>
        s.setCall call (.done (.shared fetch) (if s.cancelRequested call then .raised .cancelled else outcome))
    | _ => none
  | .invalidate key => some (s.invalidate key)
  | .tick seconds => if 0 ≤ seconds then some { s with now := s.now + seconds } else none
  | .cancel call => some (s.cancel call)

/-- The call that takes a step, if it is a step of a call. -/
def Event.call? : Event K V E → Option ℕ
  | .begin_ call _ _ | .fetched call _ | .failed call _ | .aborted call | .wake call => some call
  | .invalidate _ | .tick _ | .cancel _ => none

/-- The time that passes along a tape. -/
def elapsed (es : List (Event K V E)) : ℚ :=
  (es.map fun e => match e with
    | .tick seconds => seconds
    | _ => 0).sum

end CliproxyUsage.Cache
