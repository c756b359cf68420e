import CliproxyUsage.Frontend.Charts
import CliproxyUsage.ToMathlib.ListSortBy
import Mathlib.Order.WithBot

/-! # The table of a breakdown

The columns that each row derives from the response, and the order of the rows by a column. A sort value is a
number or an infinity; the order of names is that of the host's `localeCompare`.
-/

namespace CliproxyUsage.Frontend

section Ratios

def failureRate (t : Totals) : ℚ := if 0 < t.requests then t.failed / t.requests else 0

/-- Cached tokens are a subset of the input, or reported besides it. -/
def cacheHitRate (t : Totals) (cachedInInput : Bool) : Option ℚ :=
  let denom : ℤ := if cachedInInput then t.inputTokens else t.inputTokens + t.cachedTokens
  if 0 < denom then some (t.cachedTokens / denom) else none

/-- A relative change, or growth from nothing. -/
inductive Change where
  | ratio (x : ℚ)
  | new
deriving DecidableEq, Repr

/-- No previous period gives no change. -/
def change (current : ℚ) : Option ℚ → Option Change
  | none => none
  | some previous =>
    if 0 < previous then some (.ratio ((current - previous) / previous))
    else some (if 0 < current then .new else .ratio 0)

end Ratios

section Rows

structure MixPart where
  entry : MixEntry
  value : ℚ
  /-- The part of the row's mix total. -/
  share : ℚ
deriving DecidableEq, Repr

/-- `metricValue` of an entry of a mix. -/
def MixEntry.value (entry : MixEntry) : Metric → ℚ
  | .cost => entry.cost.getD 0
  | .tokens => tokens entry.inputTokens entry.outputTokens

/-- The entries by the active metric, zeros dropped, largest first. -/
def mixParts (entries : List MixEntry) (metric : Metric) : List MixPart :=
  let valued := (entries.map fun entry => (entry, MixEntry.value entry metric)).filter fun p => 0 < p.2
  let total := (valued.map Prod.snd).sum
  (valued.insertionSort fun a b => b.2 ≤ a.2).map fun p => ⟨p.1, p.2, p.2 / total⟩

structure TrendPeak where
  index : ℕ
  value : ℚ
deriving DecidableEq, Repr

/-- The loop over the values from a position on, with the highest value so far. -/
def peakFrom (i : ℕ) (best : Option TrendPeak) : List ℚ → Option TrendPeak
  | [] => best
  | v :: values =>
    let value := (best.map TrendPeak.value).getD 0
    peakFrom (i + 1) (if value < v then some ⟨i, v⟩ else best) values

/-- The first bucket with the highest value, unless every bucket is zero. -/
def trendPeak (values : List ℚ) : Option TrendPeak := peakFrom 0 none values

structure RichRow where
  key : String
  label : String
  totals : Totals
  share : ℚ
  change : Option Change
  trend : List ℚ
  peak : Option TrendPeak
  parts : List MixPart
  fail : ℚ
  cacheHit : Option ℚ
  price : Option ModelPrice
  /-- Milliseconds since the epoch. -/
  lastUsed : Option ℤ
deriving DecidableEq, Repr

/-- Rows with no requests and no value are dropped. -/
def buildRichRows (rows : List BreakdownRow) (dim : Dimension) (metric : Metric) : List RichRow :=
  let kept := rows.filter fun r => 0 < r.current.requests ∨ 0 < metricValue r.current metric
  let total := (kept.map fun r => metricValue r.current metric).sum
  kept.map fun r =>
    let value := metricValue r.current metric
    let trend := metricSeries r.trend metric
    { key := r.key
      label := r.label
      totals := r.current
      share := if 0 < total then value / total else 0
      change := change value (r.previous.map fun before => metricValue before metric)
      trend
      peak := trendPeak trend
      parts := mixParts r.mix metric
      fail := failureRate r.current
      cacheHit := if dim = .model then cacheHitRate r.current ((r.price.map ModelPrice.cachedInInput).getD false) else none
      price := if dim = .model then r.price else none
      lastUsed := r.current.lastUsed.map fun t => t / 1000 }

end Rows

section Sorting

/-- The columns that are sorted by a number. -/
inductive Column where
  | share
  | cost
  | tokens
  | change
  | fail
  | cacheHit
  | latency
  | lastUsed
deriving DecidableEq, Repr

inductive SortKey where
  | name
  | column (column : Column)
deriving DecidableEq, Repr

structure SortState where
  key : SortKey
  desc : Bool
deriving DecidableEq, Repr

def defaultSort : SortState := ⟨.column .share, true⟩

/-- A number, or one of the infinities below and above all numbers. -/
abbrev SortValue := WithBot (WithTop ℚ)

/-- A missing value is below every other one. -/
def sortValue (r : RichRow) : Column → SortValue
  | .share => ((r.share : WithTop ℚ) : SortValue)
  | .cost => r.totals.cost.map fun x => (x : WithTop ℚ)
  | .tokens => ((Frontend.tokens r.totals.inputTokens r.totals.outputTokens : WithTop ℚ) : SortValue)
  | .change => r.change.map fun c =>
    match c with
    | .ratio x => (x : WithTop ℚ)
    | .new => ⊤
  | .fail => ((r.fail : WithTop ℚ) : SortValue)
  | .cacheHit => r.cacheHit.map fun x => (x : WithTop ℚ)
  | .latency => ((r.totals.avgLatencyMs : WithTop ℚ) : SortValue)
  | .lastUsed => r.lastUsed.map fun t => ((t : ℚ) : WithTop ℚ)

variable (collate : String → String → Ordering) (name : RichRow → String)

/-- The ascending comparison of two rows by a column. -/
def compareRows (key : SortKey) (a b : RichRow) : Ordering :=
  match key with
  | .name => collate (name a) (name b)
  | .column column =>
    let x := sortValue a column
    let y := sortValue b column
    if x = y then .eq else if x < y then .lt else .gt

/-- The comparison in the direction of the state. -/
def directed (sort : SortState) (a b : RichRow) : Ordering :=
  if sort.desc then (compareRows collate name sort.key a b).swap else compareRows collate name sort.key a b

def sortRichRows (rows : List RichRow) (sort : SortState) : List RichRow := rows.sortBy (directed collate name sort)

/-- A click on the active column flips the direction; another column starts descending, and names ascending. -/
def nextSort (current : SortState) (key : SortKey) : SortState :=
  if current.key = key then ⟨key, !current.desc⟩ else ⟨key, key ≠ .name⟩

/-- The rows of the table of a breakdown. -/
def tableRows (data : BreakdownResponse) (metric : Metric) (sort : SortState) : List RichRow :=
  sortRichRows collate (fun r => displayName data.dim r.label) (buildRichRows data.rows data.dim metric) sort

end Sorting

end CliproxyUsage.Frontend
