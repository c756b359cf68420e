import CliproxyUsage.Machine.Core.Script
import CliproxyUsage.Model.Buckets
import CliproxyUsage.Model.Instants
import CliproxyUsage.Model.Pricing
import CliproxyUsage.Model.Requests
import CliproxyUsage.Sqlite.Select
import CliproxyUsage.ToMathlib.ListAccumulate
import Mathlib.Data.String.Basic

/-! # Priced cells

Every endpoint starts from one grouped query: rows per 15-minute slice, API key, model and source.
The query joins each request with the billing plan of its model, splits its tokens between the base
and above rates, and sums the parts, so that the cost of a cell is priced from sums.
-/

namespace CliproxyUsage

open Python Machine Sqlite

/-- Half-open UTC window; no start means all time. -/
structure Window where
  start : Option ℤ
  end_ : ℤ
deriving DecidableEq, Repr

/-- The equal-length window ending at the start; none for all time. -/
def Window.previous (window : Window) : Except PyError (Option Window) :=
  match window.start with
  | none => .ok none
  | some start =>
    let before := start - (window.end_ - start)
    if InRange before then .ok (some ⟨some before, start⟩) else .error .overflowError

/-- Raw-value SQL filters; `none` is no filter, `[]` matches nothing. -/
structure Filters where
  apiKeys : Option (List String) := none
  models : Option (List String) := none
  sources : Option (List String) := none
deriving DecidableEq, Repr

def Filters.values (filters : Filters) : FilterColumn → Option (List String)
  | .apiKey => filters.apiKeys
  | .model => filters.models
  | .source => filters.sources

/-- The 15-minute slice of a row, whose division truncates toward zero. -/
def RequestRow.sliceNo (row : RequestRow) : Option ℤ :=
  (unixSeconds row.timestamp).map fun seconds => seconds.tdiv sliceSeconds

/-- The window clauses: a row without a readable timestamp passes none of them. -/
def Window.admits (window : Window) (row : RequestRow) : Bool :=
  match datetime row.timestamp with
  | none => false
  | some at_ => (window.start.all fun start => tsParam start ≤ at_) && at_ < tsParam window.end_

/-- One `IN` clause; an empty list is `0 = 1`. -/
def Filters.admitsColumn (filters : Filters) (row : RequestRow) (column : FilterColumn) : Bool :=
  match filters.values column with
  | none => true
  | some values => row.column column ∈ values

/-- The WHERE clause. -/
def counted (window : Option Window) (filters : Filters) (row : RequestRow) : Bool :=
  (window.all fun window => window.admits row) && filters.admitsColumn row .apiKey &&
    filters.admitsColumn row .model && filters.admitsColumn row .source

/-- A row of the `plan` table; the first one has no model and matches nothing. -/
structure PlanRow where
  planModel : Option String
  openai : Bool
  switch : Bool
  threshold : ℤ
deriving DecidableEq, Repr

def planRows (plans : List (String × CostPlan)) : List PlanRow :=
  ⟨none, false, false, 0⟩ :: plans.map fun entry =>
    ⟨some entry.1, entry.2.openai, entry.2.switch, entry.2.threshold⟩

/-- A row of `r`: a request beside its plan's switch and threshold and its billed input and cache reads. -/
structure RatedRow where
  request : RequestRow
  switch : Bool
  t : ℤ
  cr : ℤ
  inp : ℤ
deriving DecidableEq, Repr

/-- The columns of `r`, where a missing plan gives NULLs. -/
def rateRow (joined : RequestRow × Option PlanRow) : RatedRow :=
  let openai := (joined.2.map PlanRow.openai).getD false
  let cached := joined.1.cachedTokens
  let input := joined.1.inputTokens
  { request := joined.1
    switch := (joined.2.map PlanRow.switch).getD false
    t := (joined.2.map PlanRow.threshold).getD 0
    cr := if openai then min cached input else cached
    inp := input - if openai then min cached input else 0 }

/-- Per-request share of a column billed at its plan's base rate. -/
def baseRate (column : RatedRow → ℤ) (r : RatedRow) : ℤ :=
  if r.switch then (if r.inp + r.cr > r.t then 0 else column r) else min (column r) r.t

structure CellKey where
  sliceNo : Option ℤ
  apiKey : String
  model : String
  source : String
deriving DecidableEq, Repr

def RequestRow.cellKey (row : RequestRow) : CellKey := ⟨row.sliceNo, row.apiKey, row.model, row.source⟩

/-- One result row of the grouped query. -/
structure CellSums where
  key : CellKey
  requests : ℕ
  failed : ℤ
  inputTokens : ℤ
  outputTokens : ℤ
  cachedTokens : ℤ
  reasoningTokens : ℤ
  latency : ℤ
  last : String
  costInp : ℤ
  costCr : ℤ
  baseInp : ℤ
  baseOut : ℤ
  baseCr : ℤ
deriving DecidableEq, Repr

/-- The aggregates of one group. -/
def cellSums (group : CellKey × List RatedRow) : Except PyError CellSums := do
  let sum := fun column : RatedRow → ℤ => sqlSum (group.2.map column)
  let failed ← sum (·.request.failed)
  let inputTokens ← sum (·.request.inputTokens)
  let outputTokens ← sum (·.request.outputTokens)
  let cachedTokens ← sum (·.request.cachedTokens)
  let reasoningTokens ← sum (·.request.reasoningTokens)
  let latency ← sum (·.request.latencyMs)
  let costInp ← sum (·.inp)
  let costCr ← sum (·.cr)
  let baseInp ← sum (baseRate (·.inp))
  let baseOut ← sum (baseRate (·.request.outputTokens))
  let baseCr ← sum (baseRate (·.cr))
  .ok { key := group.1
        requests := group.2.length
        failed, inputTokens, outputTokens, cachedTokens, reasoningTokens, latency
        last := group.2.foldl (fun last r => max last r.request.timestamp) ""
        costInp, costCr, baseInp, baseOut, baseCr }

/-- The number of values that the WHERE clause binds: the ends of the window, and the values of each `IN`. -/
def whereParams (window : Option Window) (filters : Filters) : ℕ :=
  (window.elim 0 fun window => window.start.elim 1 fun _ => 2) +
    ([.apiKey, .model, .source].map fun column => ((filters.values column).getD []).length).sum

/-- The number of values that the grouped query binds: four for each plan, and those of the WHERE clause. -/
def boundValues (window : Option Window) (filters : Filters) (plans : List (String × CostPlan)) : ℕ :=
  4 * plans.length + whereParams window filters

/-- The grouped query on one state of the table; SQLite does not compile a statement with too many values to bind. -/
def selectCells (maxVariables : ℕ) (window : Option Window) (filters : Filters) (plans : List (String × CostPlan))
    (table : Requests) : Except PyError (List CellSums) :=
  if maxVariables < boundValues window filters plans then .error .operationalError
  else
    let joined := leftJoin (fun row plan => plan.planModel = some row.model) table.rows (planRows plans)
    let r := (joined.filter fun pair => counted window filters pair.1).map rateRow
    (r.groupOn fun rated => rated.request.cellKey).mapM cellSums

inductive Dimension where
  | person
  | model
  | credential
deriving DecidableEq, Repr

structure Cell where
  sliceNo : Option ℤ
  person : String
  model : String
  credential : String
  requests : ℤ
  failed : ℤ
  inputTokens : ℤ
  outputTokens : ℤ
  cachedTokens : ℤ
  reasoningTokens : ℤ
  latencySum : ℤ
  lastUsed : ℤ
  cost : ℚ
  status : PricingResolution
  plan : Option CostPlan
deriving DecidableEq, Repr

def Cell.key (cell : Cell) : Dimension → String
  | .person => cell.person
  | .model => cell.model
  | .credential => cell.credential

/-- The models known to the first statement, each with its price entry and status. -/
abbrev Resolved := List (String × Option ModelPricing × PricingResolution)

def resolveModels (host : Host) (pricing : PricingMap) (models : List String) : Resolved :=
  models.map fun model => (model, resolve host.lower (modelKey model) pricing)

def plansOf (host : Host) (resolved : Resolved) : List (String × CostPlan) :=
  resolved.filterMap fun entry => entry.2.1.map fun price => (entry.1, costPlan host.lower price)

/-- Price the sums of a cell. -/
def cellCost (plan : Option CostPlan) (sums : CellSums) : ℚ :=
  match plan with
  | none => 0
  | some plan =>
    plan.price ⟨sums.baseInp, sums.baseOut, 0, sums.baseCr⟩
      ⟨sums.costInp - sums.baseInp, sums.outputTokens - sums.baseOut, 0, sums.costCr - sums.baseCr⟩

/-- The body of the cell loop: a model that the first statement did not return is a `KeyError`. -/
def toCell (host : Host) (resolved : Resolved) (sums : CellSums) : Except PyError Cell := do
  let (_, status) ← match resolved.lookup sums.key.model with
    | some found => .ok found
    | none => .error .keyError
  let plan := (plansOf host resolved).lookup sums.key.model
  let lastUsed ← parseTs host sums.last
  .ok { sliceNo := sums.key.sliceNo
        person := redactKey sums.key.apiKey
        model := modelKey sums.key.model
        credential := redactSource sums.key.source
        requests := sums.requests
        failed := sums.failed
        inputTokens := sums.inputTokens
        outputTokens := sums.outputTokens
        cachedTokens := sums.cachedTokens
        reasoningTokens := sums.reasoningTokens
        latencySum := sums.latency
        lastUsed
        cost := cellCost plan sums
        status
        plan }

/-- Group the window into priced cells: one statement for the models, one for the groups. -/
def fetchCells (host : Host) (window : Option Window) (filters : Filters) (pricing : PricingMap) :
    Script Requests PyError (List Cell) := do
  let models ← Script.query fun table => .ok (table.distinct .model)
  let resolved := resolveModels host pricing models
  let rows ← Script.query (selectCells host.maxVariables window filters (plansOf host resolved))
  Script.lift (rows.mapM (toCell host resolved))

end CliproxyUsage
