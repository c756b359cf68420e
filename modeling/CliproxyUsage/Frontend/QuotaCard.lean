import CliproxyUsage.Machine.Core.Run
import CliproxyUsage.Model.QuotaClient

/-! # The card of a quota account

One account on the limits page: its quota query, its reset mutation and its confirmation, as they are now
and as the card last rendered them. A click calls the handler of the last render, and renders again. What
the server answers is stored at once and shown by a later render. A visit mounts the card anew: the query
outlives the card, the confirmation does not, and a mutation that still runs is no longer observed.
-/

namespace CliproxyUsage.Frontend

open Quota

/-- The state of the quota query; `dataUpdatedAt` is when the data were stored, and zero before. -/
structure QuotaQuery where
  data : Option QuotaResponse := none
  error : Option String := none
  dataUpdatedAt : ℕ := 0
deriving DecidableEq

/-- The state of a mutation. -/
inductive MutationState where
  | idle
  | pending
  | success
  | error (message : String)
deriving DecidableEq, Repr

/-- What react-query supplies for the resets of a card: an observer of the last one, whose requests are numbered. -/
structure MutationObserver (M : Type) where
  /-- On a new mount. -/
  fresh : M
  reset : M → M
  mutate : M → ℕ → M
  /-- A request settles, be it the observed one or not. -/
  settle : M → ℕ → Except String Unit → M
  state : M → MutationState

inductive ResetActionState where
  | idle
  | confirming
  | loading
  | success (message : String)
  | error (message : String)
deriving DecidableEq, Repr

def manualResetCount (quota : Option ProviderQuota) : Option ℕ :=
  (quota.bind ProviderQuota.manualResets).map ManualResetSummary.availableCount

def canStartReset (quota : Option ProviderQuota) : Bool :=
  match manualResetCount quota with
  | some count => 0 < count
  | none => false

def resetState (confirming : Bool) (mutation : MutationState) : ResetActionState :=
  match mutation with
  | .pending => .loading
  | .success => if confirming then .confirming else .success "Manual reset consumed."
  | .error message => if confirming then .confirming else .error message
  | .idle => if confirming then .confirming else .idle

/-- What `renderBody` shows. -/
inductive CardBody where
  | skeleton
  | failure (message : String)
  | envelopeError (error : QuotaError)
  | noData
  | quota (quota : ProviderQuota)
deriving DecidableEq

/-- A failed query keeps the last response, which is shown in its stead. -/
def renderBody (query : QuotaQuery) : CardBody :=
  match query.data with
  | none =>
    match query.error with
    | none => .skeleton
    | some message => .failure (if message = "" then "An unknown error occurred." else message)
  | some response =>
    match response.error with
    | some error => .envelopeError error
    | none =>
      match response.quota with
      | none => .noData
      | some quota => .quota quota

inductive Button where
  | retry
  | refresh
  | requestReset
  | cancelReset
  | confirmReset
deriving DecidableEq, Repr

/-- What `AccountQuota` renders: the query, the mutation, and the response that a confirmation was opened against. -/
structure Panel (M : Type) where
  query : QuotaQuery
  mutation : M
  confirmedAt : Option ℕ := none
deriving DecidableEq

variable {M : Type} (library : MutationObserver M)

namespace Panel

variable (panel : Panel M)

def reset : ResetActionState :=
  resetState (panel.confirmedAt = some panel.query.dataUpdatedAt) (library.state panel.mutation)

/-- The button is on the card, and enabled. -/
def offers : Button → Bool
  | .retry =>
    match renderBody panel.query with
    | .failure _ => true
    | _ => false
  | .refresh => panel.reset library ≠ .loading
  | .requestReset =>
    match renderBody panel.query with
    | .quota quota => canStartReset (some quota) && panel.reset library ≠ .confirming && panel.reset library ≠ .loading
    | _ => false
  | .cancelReset | .confirmReset =>
    match renderBody panel.query with
    | .quota quota => panel.reset library = .confirming && canStartReset (some quota)
    | _ => false

end Panel

structure Card (M : Type) where
  now : Panel M
  shown : Panel M
  /-- The resets that have not settled, of this visit and of earlier ones. -/
  running : List ℕ := []
  sent : ℕ := 0
deriving DecidableEq

inductive CardEvent where
  | click (button : Button)
  | render
  | stored (response : QuotaResponse) (at_ : ℕ)
  | failed (message : String)
  /-- A reset settles with its error, or after the refetch that it awaits. -/
  | settled (post : ℕ) (outcome : Except String Unit)
  | visit

namespace Card

/-- A panel of a new mount. -/
def mounted (query : QuotaQuery) : Panel M := { query, mutation := library.fresh }

def start (query : QuotaQuery) : Card M where
  now := mounted library query
  shown := mounted library query

variable (card : Card M)

def render : Card M := { card with shown := card.now }

/-- The handler of a button. `refetch` only starts what ends with `stored` or `failed`. -/
def press : Button → Card M
  | .retry | .refresh => card
  | .requestReset =>
    { card with
      now := { card.now with
        mutation := library.reset card.now.mutation
        confirmedAt := some card.shown.query.dataUpdatedAt } }
  | .cancelReset => { card with now := { card.now with confirmedAt := none } }
  | .confirmReset =>
    { card with
      now := { card.now with mutation := library.mutate card.now.mutation card.sent, confirmedAt := none }
      running := card.running ++ [card.sent]
      sent := card.sent + 1 }

def settle (post : ℕ) (outcome : Except String Unit) : Card M :=
  { card with
    now := { card.now with mutation := library.settle card.now.mutation post outcome }
    running := card.running.erase post }

def step : CardEvent → Option (Card M)
  | .click button => if card.shown.offers library button then some (card.press library button).render else none
  | .render => some card.render
  | .stored response at_ => some { card with now := { card.now with query := ⟨some response, none, at_⟩ } }
  | .failed message => some { card with now := { card.now with query := { card.now.query with error := some message } } }
  | .settled post outcome => if post ∈ card.running then some (card.settle library post outcome) else none
  | .visit => some { card with now := mounted library card.now.query, shown := mounted library card.now.query }

end Card

end CliproxyUsage.Frontend
