import CliproxyUsage.Machine.Core.Run

/-! # Sequences of statements against a shared store

A request reads a shared store through separate statements, and its later statements may depend
on what the earlier ones returned. `Script` is such a request, up to the results of its
statements; `run` evaluates it on one state of the store.
-/

namespace Machine

/-- A request whose remaining statements are still to be answered. -/
inductive Script (σ ε α : Type) where
  | ret (a : α)
  | raise (e : ε)
  | select (rest : σ → Script σ ε α)

namespace Script

variable {σ ε α β γ : Type}

def bind : Script σ ε α → (α → Script σ ε β) → Script σ ε β
  | .ret a, f => f a
  | .raise e, _ => .raise e
  | .select rest, f => .select fun s => (rest s).bind f

instance : Monad (Script σ ε) where
  pure := .ret
  bind := .bind

/-- One statement, which may itself fail. -/
def query (statement : σ → Except ε α) : Script σ ε α :=
  .select fun s => match statement s with
    | .ok a => .ret a
    | .error e => .raise e

/-- Local computation between two statements. -/
def lift : Except ε α → Script σ ε α
  | .ok a => .ret a
  | .error e => .raise e

/-- Evaluate every statement on the same state. -/
def run (s : σ) : Script σ ε α → Except ε α
  | .ret a => .ok a
  | .raise e => .error e
  | .select rest => (rest s).run s

@[simp] theorem run_pure (s : σ) (a : α) : (pure a : Script σ ε α).run s = .ok a := rfl

@[simp] theorem run_ret (s : σ) (a : α) : (ret a : Script σ ε α).run s = .ok a := rfl

@[simp] theorem run_query (s : σ) (statement : σ → Except ε α) :
    (query statement).run s = statement s := by
  simp only [query, run]
  cases statement s <;> rfl

@[simp] theorem run_lift (s : σ) (result : Except ε α) : (lift result : Script σ ε α).run s = result := by
  cases result <;> rfl

@[simp] theorem run_bind (s : σ) (script : Script σ ε α) (f : α → Script σ ε β) :
    (script >>= f).run s = (script.run s).bind fun a => (f a).run s := by
  change (script.bind f).run s = _
  induction script with
  | ret a => rfl
  | raise e => rfl
  | select rest ih => exact ih s

end Script

end Machine
