import CliproxyUsage.Model.Routes

/-! # Warnings about aliases

The options endpoint logs each alias that no API key is displayed as. Its calls run in threads and share the
set of the aliases that were warned about: a call reads the set when it has queried the database, logs what is
left one by one, and extends the set at its end.
-/

namespace CliproxyUsage

open Python Machine

/-- A call that has queried: what it takes to be unmatched, and what it has not logged of that. -/
structure OptionsCall where
  unmatched : List String
  toLog : List String
deriving DecidableEq, Repr

structure Warnings where
  warned : List String := []
  calls : List OptionsCall := []
  log : List String := []
deriving DecidableEq, Repr

inductive WarningEvent where
  /-- A call queries the table that is current. -/
  | query (table : Requests)
  | log (call : ℕ)
  | finish (call : ℕ)
deriving DecidableEq

/-- `sorted(set(aliases) - {e.key for e in body.people} - warned)`. -/
def unmatched (aliases : List (String × String)) (body : OptionsResponse) (warned : List String) : List String :=
  ((aliases.map Prod.fst).eraseDups.filter fun key => key ∉ body.keys .person ∧ key ∉ warned).insertionSort (· ≤ ·)

namespace Warnings

/-- A call takes one of the threads. One whose query fails is over at once. -/
def step (host : Host) (pricing : PricingMap) (aliases : List (String × String)) (threads : ℕ) (s : Warnings) :
    WarningEvent → Option Warnings
  | .query table =>
    if s.calls.length < threads then
      match (queryOptions host pricing aliases).run table with
      | .ok body =>
        let keys := unmatched aliases body s.warned
        some { s with calls := s.calls ++ [⟨keys, keys⟩] }
      | .error _ => some s
    else none
  | .log i =>
    match s.calls[i]? with
    | some ⟨keys, key :: rest⟩ => some { s with calls := s.calls.set i ⟨keys, rest⟩, log := s.log ++ [key] }
    | _ => none
  | .finish i =>
    match s.calls[i]? with
    | some ⟨keys, []⟩ => some { s with warned := s.warned ++ keys, calls := s.calls.eraseIdx i }
    | _ => none

end Warnings

end CliproxyUsage
