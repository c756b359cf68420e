import CliproxyUsage.Model.Cells
import Mathlib.Data.Finset.Insert
import Mathlib.Data.List.MinMax
import Mathlib.Data.List.Sort
import Mathlib.Data.Rat.Floor
import Mathlib.Order.WithBot

/-! # Usage queries

The responses of the summary, breakdown and options endpoints, as sums of the same priced cells:
totals, per-entity rows with their mixes and trends, and series on a dense bucket axis. Rows and
entities are ranked by cost, then tokens, then key.
-/

namespace CliproxyUsage

open Python Machine Sqlite

/-- Number of entities per dimension that get a fixed color slot. -/
def slotCount : ℕ := 7

/-- Paired dimension shown in each breakdown row's mix bar. -/
def mixDim : Dimension → Dimension
  | .person => .model
  | .model => .person
  | .credential => .person

/-- Running sums over priced cells. -/
structure Acc where
  requests : ℤ := 0
  failed : ℤ := 0
  inputTokens : ℤ := 0
  outputTokens : ℤ := 0
  cachedTokens : ℤ := 0
  reasoningTokens : ℤ := 0
  latencySum : ℤ := 0
  cost : ℚ := 0
  lastUsed : Option ℤ := none
  statuses : Finset PricingResolution := ∅
deriving DecidableEq

def Acc.add (acc : Acc) (c : Cell) : Acc where
  requests := acc.requests + c.requests
  failed := acc.failed + c.failed
  inputTokens := acc.inputTokens + c.inputTokens
  outputTokens := acc.outputTokens + c.outputTokens
  cachedTokens := acc.cachedTokens + c.cachedTokens
  reasoningTokens := acc.reasoningTokens + c.reasoningTokens
  latencySum := acc.latencySum + c.latencySum
  cost := acc.cost + c.cost
  lastUsed := match acc.lastUsed with
    | none => some c.lastUsed
    | some last => some (if last < c.lastUsed then c.lastUsed else last)
  statuses := insert c.status acc.statuses

structure Totals where
  requests : ℤ
  failed : ℤ
  inputTokens : ℤ
  outputTokens : ℤ
  cachedTokens : ℤ
  reasoningTokens : ℤ
  cost : Option ℚ
  costStatus : CostStatus
  avgLatencyMs : ℚ
  lastUsed : Option ℤ
deriving DecidableEq, Repr

namespace Acc

def costStatus (acc : Acc) (hasPricing : Bool) : CostStatus :=
  if hasPricing then rollupCostStatus acc.statuses else .missing

def costValue (acc : Acc) (hasPricing : Bool) : Option ℚ :=
  if acc.costStatus hasPricing = .missing then none else some acc.cost

def totals (acc : Acc) (hasPricing : Bool) : Totals where
  requests := acc.requests
  failed := acc.failed
  inputTokens := acc.inputTokens
  outputTokens := acc.outputTokens
  cachedTokens := acc.cachedTokens
  reasoningTokens := acc.reasoningTokens
  cost := acc.costValue hasPricing
  costStatus := acc.costStatus hasPricing
  avgLatencyMs := if acc.requests = 0 then 0 else acc.latencySum / acc.requests
  lastUsed := acc.lastUsed

/-- Sort key: cost descending, then input and output tokens descending, then key. -/
def rank (acc : Acc) (key : String) : ℚ ×ₗ ℤ ×ₗ String :=
  toLex (-acc.cost, toLex (-(acc.inputTokens + acc.outputTokens), key))

end Acc

/-- `sorted(groups, key=rank)`. -/
def ranked (groups : List (String × Acc)) : List (String × Acc) :=
  groups.insertionSort fun first second => first.2.rank first.1 ≤ second.2.rank second.1

/-- The running sums of the cells of each key. -/
def group (key : Cell → String) (cells : List Cell) : List (String × Acc) :=
  cells.accumulate key {} Acc.add

def label (dim : Dimension) (aliases : List (String × String)) (key : String) : String :=
  if dim = .person then (aliases.lookup key).getD key else key

/-- Raw values of a column whose display key is selected; none means no filter. -/
def resolveFilter (column : FilterColumn) (keys : Option (List String)) :
    Script Requests PyError (Option (List String)) :=
  match keys with
  | none => pure none
  | some target => do
    let values ← Script.query fun table => .ok (table.distinct column)
    pure (some (values.filter fun value => filterKey column value ∈ target))

/-- Printed times are ordered as pairs of integers. -/
local instance printedOrder : Preorder (ℤ ×ₗ ℤ) :=
  @Prod.Lex.instPreorder ℤ ℤ Int.instLinearOrder.toPreorder Int.instLinearOrder.toPreorder

/-- The sort key `datetime(timestamp)`, where NULL comes first. -/
def RequestRow.startKey (row : RequestRow) : WithBot (ℤ ×ₗ ℤ) := datetime row.timestamp

/-- `SELECT timestamp FROM requests ORDER BY datetime(timestamp) LIMIT 1`. -/
def dataStartText (table : Requests) : Option String :=
  (table.rows.argmin RequestRow.startKey).map RequestRow.timestamp

def dataStart (host : Host) : Script Requests PyError (Option ℤ) := do
  let row ← Script.query fun table => .ok (dataStartText table)
  match row with
  | none => pure none
  | some text => do
    let start ← Script.lift (parseTs host text)
    pure (some start)

structure Axis where
  bucket : Bucket
  starts : List LocalTime
  edges : List ℤ
deriving DecidableEq, Repr

/-- The position of a cell on the axis; a cell inside a window has a slice. -/
def Axis.position (axis : Axis) (c : Cell) : Option ℕ := c.sliceNo.bind (slicePosition axis.edges)

/-- The buckets of a window from a given start. -/
def axisFrom (start end_ : ℤ) (requested : Option Bucket) (tz : Zone) : Except PyError Axis := do
  let bucket ← effectiveBucket start end_ requested tz
  let starts ← bucketStarts start end_ bucket tz none
  .ok { bucket, starts, edges := edges tz starts }

/-- Dense bucket axis; all-time windows start at the first recorded request. -/
def axis (host : Host) (window : Window) (requested : Option Bucket) (tz : Zone) :
    Script Requests PyError Axis := do
  let start ← match window.start with
    | some start => pure start
    | none => do
      let first ← dataStart host
      pure (first.getD window.end_)
  Script.lift (axisFrom start window.end_ requested tz)

/-- Four metrics on a dense axis. -/
structure Trend where
  cost : List ℚ
  inputTokens : List ℚ
  outputTokens : List ℚ
  cachedTokens : List ℚ
deriving DecidableEq, Repr

def Trend.zero (n : ℕ) : Trend :=
  let zeros := List.replicate n 0
  ⟨zeros, zeros, zeros, zeros⟩

/-- Add a cell at its position; a cell without one is skipped. -/
def Trend.add (position : Cell → Option ℕ) (trend : Trend) (c : Cell) : Trend :=
  match position c with
  | none => trend
  | some i =>
    { cost := trend.cost.modify i (· + c.cost)
      inputTokens := trend.inputTokens.modify i (· + c.inputTokens)
      outputTokens := trend.outputTokens.modify i (· + c.outputTokens)
      cachedTokens := trend.cachedTokens.modify i (· + c.cachedTokens) }

structure Series extends Trend where
  requests : List ℚ
deriving DecidableEq, Repr

def Series.zero (n : ℕ) : Series := ⟨Trend.zero n, List.replicate n 0⟩

def Series.add (position : Cell → Option ℕ) (series : Series) (c : Cell) : Series :=
  match position c with
  | none => series
  | some i => ⟨series.toTrend.add position c, series.requests.modify i (· + c.requests)⟩

structure SummaryResponse where
  bucket : Bucket
  buckets : List LocalTime
  current : Totals
  previous : Option Totals
  series : Series
deriving DecidableEq, Repr

/-- The cells of the previous period, or none for all time. -/
def previousCells (host : Host) (window : Window) (filters : Filters) (pricing : PricingMap) :
    Script Requests PyError (Option (List Cell)) := do
  let prevWindow ← Script.lift window.previous
  match prevWindow with
  | none => pure none
  | some prevWindow => do
    let cells ← fetchCells host (some prevWindow) filters pricing
    pure (some cells)

/-- Totals for the window and its previous period, plus per-bucket series. -/
def querySummary (host : Host) (window : Window) (requested : Option Bucket) (tz : Zone)
    (filters : Filters) (pricing : PricingMap) : Script Requests PyError SummaryResponse := do
  let hasPricing := pricing.nonEmpty
  let axis ← axis host window requested tz
  let cells ← fetchCells host (some window) filters pricing
  let previous ← previousCells host window filters pricing
  pure
    { bucket := axis.bucket
      buckets := axis.starts
      current := (cells.foldl Acc.add {}).totals hasPricing
      previous := previous.map fun cells => (cells.foldl Acc.add {}).totals hasPricing
      series := cells.foldl (Series.add axis.position) (Series.zero axis.starts.length) }

structure MixEntry where
  key : String
  label : String
  cost : Option ℚ
  inputTokens : ℤ
  outputTokens : ℤ
  cachedTokens : ℤ
deriving DecidableEq, Repr

/-- USD per 1M tokens of each type, before rounding. -/
structure UnitPrices where
  input : ℚ
  output : ℚ
  cacheRead : ℚ
  cacheWrite : ℚ
deriving DecidableEq, Repr

structure LongContextPrice extends UnitPrices where
  threshold : ℤ
  wholeRequest : Bool
deriving DecidableEq, Repr

structure ModelPrice extends UnitPrices where
  longContext : Option LongContextPrice
  cachedInInput : Bool
deriving DecidableEq, Repr

/-- `round(value, 6)`, half to even. -/
def round6 (value : ℚ) : ℚ :=
  let scaled := value * 1000000
  let below := ⌊scaled⌋
  let rest := scaled - below
  let up := if rest < 1 / 2 then 0 else if 1 / 2 < rest then 1 else below % 2
  (below + up : ℤ) / 1000000

def unitPrices (rates : Rates) : UnitPrices :=
  let m := fun perToken : ℚ => round6 (perToken * 1000000)
  { input := m rates.input, output := m rates.output, cacheRead := m rates.cacheRead
    cacheWrite := m rates.cacheCreation }

/-- Per-1M rates of the plan that prices the model's cost. -/
def modelPrice (plan : Option CostPlan) : Option ModelPrice :=
  plan.map fun plan =>
    { unitPrices plan.base with
      longContext :=
        if plan.above = plan.base then none
        else some { unitPrices plan.above with threshold := plan.threshold, wholeRequest := plan.switch }
      cachedInInput := plan.openai }

structure BreakdownRow where
  key : String
  label : String
  current : Totals
  previous : Option Totals
  trend : Trend
  mix : List MixEntry
  price : Option ModelPrice
deriving DecidableEq, Repr

structure BreakdownResponse where
  dim : Dimension
  bucket : Bucket
  buckets : List LocalTime
  rows : List BreakdownRow
deriving DecidableEq, Repr

def mixEntry (dim : Dimension) (aliases : List (String × String)) (hasPricing : Bool)
    (part : String × Acc) : MixEntry where
  key := part.1
  label := label dim aliases part.1
  cost := part.2.costValue hasPricing
  inputTokens := part.2.inputTokens
  outputTokens := part.2.outputTokens
  cachedTokens := part.2.cachedTokens

/-- The rows of a breakdown from its current and previous cells. -/
def breakdownRows (dim : Dimension) (aliases : List (String × String)) (hasPricing : Bool)
    (n : ℕ) (position : Cell → Option ℕ) (cells : List Cell) (previous : Option (List Cell)) :
    List BreakdownRow :=
  let per := group (·.key dim) cells
  let mix := cells.accumulate (·.key dim) [] fun parts c => parts.upsert (c.key (mixDim dim)) {} (·.add c)
  let trend := cells.accumulate (·.key dim) (Trend.zero n) (Trend.add position)
  let plans := cells.accumulate Cell.model none fun _ c => c.plan
  let prev := previous.map (group (·.key dim))
  (ranked per).map fun entry =>
    { key := entry.1
      label := label dim aliases entry.1
      current := entry.2.totals hasPricing
      previous := prev.map fun prev => ((prev.lookup entry.1).getD {}).totals hasPricing
      trend := (trend.lookup entry.1).getD (Trend.zero n)
      mix := (ranked ((mix.lookup entry.1).getD [])).map (mixEntry (mixDim dim) aliases hasPricing)
      price := if dim = .model then modelPrice ((plans.lookup entry.1).getD none) else none }

/-- One row per entity of `dim` with totals, previous totals, trend and mix. -/
def queryBreakdown (host : Host) (dim : Dimension) (window : Window) (requested : Option Bucket)
    (tz : Zone) (filters : Filters) (pricing : PricingMap) (aliases : List (String × String)) :
    Script Requests PyError BreakdownResponse := do
  let axis ← axis host window requested tz
  let cells ← fetchCells host (some window) filters pricing
  let previous ← previousCells host window filters pricing
  pure
    { dim
      bucket := axis.bucket
      buckets := axis.starts
      rows := breakdownRows dim aliases pricing.nonEmpty axis.starts.length axis.position cells previous }

structure Entity where
  key : String
  label : String
  slot : Option ℕ
deriving DecidableEq, Repr

structure OptionsResponse where
  people : List Entity
  models : List Entity
  credentials : List Entity
deriving DecidableEq, Repr

def entities (aliases : List (String × String)) (cells : List Cell) (dim : Dimension) : List Entity :=
  (ranked (group (·.key dim) cells)).zipIdx.map fun (entry, i) =>
    { key := entry.1
      label := label dim aliases entry.1
      slot := if i < slotCount then some i else none }

/-- Every entity per dimension ordered by all-time spend; the top 7 get slots. -/
def queryOptions (host : Host) (pricing : PricingMap) (aliases : List (String × String)) :
    Script Requests PyError OptionsResponse := do
  let cells ← fetchCells host none {} pricing
  pure
    { people := entities aliases cells .person
      models := entities aliases cells .model
      credentials := entities aliases cells .credential }

end CliproxyUsage
