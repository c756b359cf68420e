import CliproxyUsage.Frontend.Entities
import CliproxyUsage.Frontend.ViewState

/-! # The share bar and the stacked chart

Two views of one breakdown: a segment for each slotted row by its total, and a layer for each by its trend,
with the rows without a slot folded into Other. A chart keeps the bucket starts as the response lists them.
-/

namespace CliproxyUsage.Frontend

open Python

section Metrics

/-- The UI's single definition of "tokens": input and output, cached excluded. -/
def tokens (input output : ℚ) : ℚ := input + output

/-- `tokens` of each bucket of aligned series. -/
def tokenSeries (trend : Trend) : List ℚ :=
  trend.inputTokens.mapIdx fun i input => tokens input (trend.outputTokens[i]?.getD 0)

/-- An unpriced cost counts as zero. -/
def metricValue (v : Totals) : Metric → ℚ
  | .cost => v.cost.getD 0
  | .tokens => tokens v.inputTokens v.outputTokens

/-- A trend's values of the active metric. -/
def metricSeries (trend : Trend) : Metric → List ℚ
  | .cost => trend.cost
  | .tokens => tokenSeries trend

end Metrics

section Share

structure ShareItem where
  key : String
  label : String
  value : ℚ
  slot : Option ℕ
deriving DecidableEq, Repr

/-- One item per breakdown row, valued by the active metric and colored by its options slot. -/
def shareItems (data : BreakdownResponse) (metric : Metric) (lookup : EntityLookup) : List ShareItem :=
  data.rows.map fun r => ⟨r.key, r.label, metricValue r.current metric, (lookup.entity data.dim r.key).slot⟩

inductive ShareSegment where
  | entity (key : String) (slot : ℕ) (value share : ℚ)
  | other (keys : List String) (label : String) (value share : ℚ)
deriving DecidableEq, Repr

/-- The segments so far, and what goes into Other. -/
structure ShareFold where
  segs : List ShareSegment := []
  otherKeys : List String := []
  other : ℚ := 0

def ShareSegment.value : ShareSegment → ℚ
  | .entity _ _ value _ => value
  | .other _ _ value _ => value

def ShareFold.add (share : ℚ → ℚ) (fold : ShareFold) (it : ShareItem) : ShareFold :=
  match it.slot with
  | none => { fold with otherKeys := fold.otherKeys ++ [it.key], other := fold.other + it.value }
  | some slot => { fold with segs := fold.segs ++ [.entity it.key slot it.value (share it.value)] }

/-- Entity segments by descending value, then Other; zero-valued entries are dropped. -/
def shareSegments (items : List ShareItem) : List ShareSegment :=
  let positive := items.filter fun it => 0 < it.value
  let total := (positive.map ShareItem.value).sum
  let share := fun v : ℚ => if 0 < total then v / total else 0
  let fold := positive.foldl (ShareFold.add share) {}
  let segs := fold.segs.insertionSort fun a b => b.value ≤ a.value
  if 0 < fold.otherKeys.length then
    segs ++ [.other fold.otherKeys s!"Other ({fold.otherKeys.length})" fold.other (share fold.other)]
  else segs

end Share

section Stack

structure StackLayer where
  label : String
  slot : Option ℕ
  values : List ℚ
deriving DecidableEq, Repr

/-- The first `length` values, zeros where there are none. -/
def pad (length : ℕ) (vs : List ℚ) : List ℚ := (List.range length).map fun i => vs[i]?.getD 0

/-- Add a series to the values of the Other layer. -/
def addSeries (values vs : List ℚ) : List ℚ := values.mapIdx fun i v => v + vs[i]?.getD 0

/-- All-zero inputs are dropped; Other is last and only present when non-zero. -/
def stackLayers (inputs : List StackLayer) (length : ℕ) : List StackLayer :=
  let live := inputs.filter fun it => it.values.any fun v => 0 < v
  let layers := ((live.filter fun it => it.slot.isSome).insertionSort fun a b => a.slot.getD 0 ≤ b.slot.getD 0).map
    fun it => { it with values := pad length it.values }
  let rest := live.filter fun it => it.slot.isNone
  if 0 < rest.length then
    layers ++ [⟨"Other", none, rest.foldl (fun values it => addSeries values it.values) (List.replicate length 0)⟩]
  else layers

structure ChartLayer where
  label : String
  color : String
  values : List ℚ
deriving DecidableEq, Repr

structure BreakdownChart where
  buckets : List LocalTime
  bucket : Bucket
  layers : List ChartLayer
deriving DecidableEq, Repr

/-- A breakdown over time: one stacked layer per slotted entity, the rest as Other. -/
def breakdownChart (data : BreakdownResponse) (metric : Metric) (lookup : EntityLookup) : BreakdownChart :=
  let inputs := data.rows.map fun r =>
    StackLayer.mk (displayName data.dim r.label) (lookup.entity data.dim r.key).slot (metricSeries r.trend metric)
  { buckets := data.buckets
    bucket := data.bucket
    layers := (stackLayers inputs data.buckets.length).map fun l => ⟨l.label, lookup.slotColor l.slot, l.values⟩ }

end Stack

end CliproxyUsage.Frontend
