import CliproxyUsage.Proofs.Axis
import CliproxyUsage.Proofs.Totals

/-! # All views agree on the totals

A summary and a breakdown of the same table add up the same cells: by entity, by paired entity
within a row, and by bucket. No cell is left out of a series, since every cell has a bucket.
-/

namespace CliproxyUsage

open Python Machine

variable {host : Host} {pricing : PricingMap} {aliases : List (String × String)}

/-- Agreement of a summary with a breakdown of the same requests. -/
structure SummaryResponse.Agrees (summary : SummaryResponse) (breakdown : BreakdownResponse) : Prop where
  axis : breakdown.bucket = summary.bucket ∧ breakdown.buckets = summary.buckets
  rows : ∀ m, (breakdown.rows.map (·.current.measure m)).sum = summary.current.measure m
  mix : ∀ row ∈ breakdown.rows, ∀ metric, (row.mix.map (·.amount metric)).sum = row.current.measure metric.measure
  series : ∀ metric, (summary.series.values metric).sum = summary.current.measure metric.measure
  requests : summary.series.requests.sum = summary.current.measure .requests
  trend : ∀ row ∈ breakdown.rows, ∀ metric, (row.trend.values metric).sum = row.current.measure metric.measure
  buckets : ∀ metric (i : ℕ),
    (breakdown.rows.map fun row => (row.trend.values metric)[i]?.getD 0).sum = (summary.series.values metric)[i]?.getD 0
  live : breakdown.rows ≠ [] →
    (summary.current.costStatus = .live ↔ ∀ row ∈ breakdown.rows, row.current.costStatus = .live)
  missing : breakdown.rows ≠ [] →
    (summary.current.costStatus = .missing ↔ ∀ row ∈ breakdown.rows, row.current.costStatus = .missing)
  cost : breakdown.rows ≠ [] →
    (summary.current.cost = none ↔ ∀ row ∈ breakdown.rows, row.current.cost = none)

section Rows

variable {dim : Dimension} {hasPricing : Bool} {n : ℕ} {position : Cell → Option ℕ} {cells : List Cell}
  {previous : Option (List Cell)}

private theorem row_measure (priced : ∀ c ∈ cells, c.Priced hasPricing) {row : BreakdownRow}
    (member : row ∈ breakdownRows dim aliases hasPricing n position cells previous) (m : Measure) :
    row.current.measure m = ((ofKey dim row.key cells).map (·.measure m)).sum := by
  rw [(mem_breakdownRows member).2.1]
  exact totals_measure (fun c present => priced c (mem_of_ofKey present)) m

private theorem live_iff_rows (some_ : breakdownRows dim aliases hasPricing n position cells previous ≠ []) :
    ((cells.foldl Acc.add {}).totals hasPricing).costStatus = .live ↔
      ∀ row ∈ breakdownRows dim aliases hasPricing n position cells previous, row.current.costStatus = .live := by
  constructor
  · intro whole row member
    obtain ⟨priced, all⟩ := costStatus_live.mp whole
    rw [(mem_breakdownRows member).2.1]
    exact costStatus_live.mpr ⟨priced, fun c present => all c (mem_of_ofKey present)⟩
  · intro each
    obtain ⟨first, member⟩ := List.exists_mem_of_ne_nil _ some_
    have here := each first member
    rw [(mem_breakdownRows member).2.1] at here
    apply costStatus_live.mpr
    refine ⟨(costStatus_live.mp here).1, ?_⟩
    intro c present
    obtain ⟨row, listed, key⟩ := @exists_row dim aliases hasPricing n position cells previous c present
    have there := each row listed
    rw [(mem_breakdownRows listed).2.1] at there
    exact (costStatus_live.mp there).2 c (mem_ofKey present key.symm)

private theorem missing_iff_rows (priced : ∀ c ∈ cells, c.Priced hasPricing)
    (some_ : breakdownRows dim aliases hasPricing n position cells previous ≠ []) :
    ((cells.foldl Acc.add {}).totals hasPricing).costStatus = .missing ↔
      ∀ row ∈ breakdownRows dim aliases hasPricing n position cells previous, row.current.costStatus = .missing := by
  constructor
  · intro whole row member
    have all := status_of_costStatus priced whole
    obtain ⟨⟨c, present, key⟩, current, _⟩ := mem_breakdownRows member
    rw [current]
    exact costStatus_missing (mem_ofKey present key) fun c present => all c (mem_of_ofKey present)
  · intro each
    obtain ⟨first, member⟩ := List.exists_mem_of_ne_nil _ some_
    obtain ⟨⟨c, present, _⟩, _⟩ := mem_breakdownRows member
    apply costStatus_missing present
    intro c present
    obtain ⟨row, listed, key⟩ := @exists_row dim aliases hasPricing n position cells previous c present
    have there := each row listed
    rw [(mem_breakdownRows listed).2.1] at there
    exact status_of_costStatus (fun c present => priced c (mem_of_ofKey present)) there c (mem_ofKey present key.symm)

/-- One bucket of a tally sums over the rows to the tally of all cells. -/
private theorem sum_bucket (f : Cell → ℚ) (i : ℕ) :
    ((breakdownRows dim aliases hasPricing n position cells previous).map fun row =>
        ((ofKey dim row.key cells).tally n position f)[i]?.getD 0).sum = (cells.tally n position f)[i]?.getD 0 := by
  have at_ : ∀ cells : List Cell, (cells.tally n position f)[i]?.getD 0 =
      (cells.map fun c => if i < n then List.amountAt position f i c else 0).sum := by
    intro cells
    rw [List.getElem?_tally]
    split <;> simp
  simp only [at_]
  exact sum_breakdownRows _

/-- A summary of priced cells that all have a bucket agrees with every breakdown of them. -/
theorem agrees_of_cells (priced : ∀ c ∈ cells, c.Priced hasPricing)
    (placed : ∀ c ∈ cells, ∃ i < n, position c = some i) {bucket : Bucket} {starts : List LocalTime}
    {before : Option Totals} :
    SummaryResponse.Agrees
      ⟨bucket, starts, (cells.foldl Acc.add {}).totals hasPricing, before,
        cells.foldl (Series.add position) (Series.zero n)⟩
      ⟨dim, bucket, starts, breakdownRows dim aliases hasPricing n position cells previous⟩ := by
  have series : ∀ metric, (cells.foldl (Series.add position) (Series.zero n)).values metric =
      cells.tally n position (·.measure metric.measure) := by
    intro metric
    rw [toTrend_foldl_add]
    exact trend_values cells metric
  have trend : ∀ row ∈ breakdownRows dim aliases hasPricing n position cells previous, ∀ metric,
      row.trend.values metric = (ofKey dim row.key cells).tally n position (·.measure metric.measure) := by
    intro row member metric
    rw [(mem_breakdownRows member).2.2.2.1, trend_values]
  constructor
  case axis => exact ⟨rfl, rfl⟩
  case rows =>
    intro m
    rw [totals_measure priced, ← @sum_breakdownRows dim aliases hasPricing n position cells previous]
    exact congrArg List.sum (List.map_congr_left fun row member => row_measure priced member m)
  case mix =>
    intro row member metric
    rw [row_measure priced member, (mem_breakdownRows member).2.2.2.2]
    exact sum_mix (fun c present => priced c (mem_of_ofKey present)) metric
  case series =>
    intro metric
    rw [totals_measure priced]
    exact (congrArg List.sum (series metric)).trans (List.sum_tally placed)
  case requests =>
    rw [totals_measure priced, series_requests]
    exact List.sum_tally placed
  case trend =>
    intro row member metric
    rw [row_measure priced member, trend row member]
    exact List.sum_tally fun c present => placed c (mem_of_ofKey present)
  case buckets =>
    intro metric i
    rw [series, ← sum_bucket]
    exact congrArg List.sum (List.map_congr_left fun row member => by rw [trend row member])
  case live => exact live_iff_rows
  case missing => exact missing_iff_rows priced
  case cost =>
    intro some_
    rw [cost_eq_none]
    refine (missing_iff_rows priced some_).trans (forall₂_congr fun row member => ?_)
    rw [(mem_breakdownRows member).2.1, cost_eq_none]

end Rows

/-- A summary and a breakdown of one table agree on every total, where SQLite selects requests of the window only. -/
theorem views_agree {window : Window} {requested : Option Bucket} {tz : Zone} {filters : Filters} {table : Requests}
    (selects : table.Selects host window filters) (noSkip : tz.NoHourSkipped)
    (divide : tz.OffsetsDivide (sliceSeconds * microsPerSecond)) {dim : Dimension} {summary : SummaryResponse}
    {breakdown : BreakdownResponse}
    (summed : (querySummary host window requested tz filters pricing).run table = .ok summary)
    (listed : (queryBreakdown host dim window requested tz filters pricing aliases).run table = .ok breakdown) :
    summary.Agrees breakdown := by
  obtain ⟨ax, axed, cells, fetched, _, _, rfl⟩ := run_querySummary_ok_iff.mp summed
  obtain ⟨ax', axed', cells', fetched', _, _, rfl⟩ := run_queryBreakdown_ok_iff.mp listed
  obtain rfl : ax = ax' := Except.ok.inj (axed.symm.trans axed')
  obtain rfl : cells = cells' := Except.ok.inj (fetched.symm.trans fetched')
  exact agrees_of_cells (fun c member => priced_of_mem fetched member)
    (position_of_cell selects noSkip divide axed fetched)

def stampedRow (timestamp model : String) (inputTokens : ℤ) : RequestRow :=
  ⟨timestamp, "sk-a-0001", model, "dev@example.com", "0", 1200, inputTokens, 10, 0, 0, inputTokens + 10, 0⟩

/-- One request in the easternmost zone, and one with a fraction. -/
def stampedTable : Requests :=
  ⟨[stampedRow "2024-01-02T00:00:00+14:00" "m" 100, stampedRow "2024-01-02T12:00:00.5Z" "n" 200], by decide⟩

/-- All time before the third of January. -/
def untilThird : Window := ⟨none, 1704240000000000⟩

def modelPrices : List (String × ModelPricing) := [("m", { inputCostPerToken := 1 / 1000, outputCostPerToken := 0 })]

def pricedModel : PricingMap := ⟨modelPrices, by decide⟩

def stampedSummary : SummaryResponse where
  bucket := .day
  buckets := [⟨1704067200000000, false⟩, ⟨1704153600000000, false⟩]
  current := ⟨2, 0, 300, 20, 0, 0, some (1 / 10), .partialMissing, 1200, some 1704196800500000⟩
  previous := none
  series := ⟨⟨[1 / 10, 0], [100, 200], [10, 10], [0, 0]⟩, [1, 1]⟩

def stampedBreakdown : BreakdownResponse where
  dim := .model
  bucket := .day
  buckets := stampedSummary.buckets
  rows :=
    [⟨"m", "m", ⟨1, 0, 100, 10, 0, 0, some (1 / 10), .live, 1200, some 1704103200000000⟩, none,
        ⟨[1 / 10, 0], [100, 0], [10, 0], [0, 0]⟩, [⟨"sk-*******-0001", "team", some (1 / 10), 100, 10, 0⟩],
        some ⟨⟨1000, 0, 100, 1250⟩, none, false⟩⟩,
      ⟨"n", "n", ⟨1, 0, 200, 10, 0, 0, none, .missing, 1200, some 1704196800500000⟩, none,
        ⟨[0, 0], [0, 200], [0, 10], [0, 0]⟩, [⟨"sk-*******-0001", "team", none, 200, 10, 0⟩], none⟩]

theorem views_agree_stamped : stampedSummary.Agrees stampedBreakdown := by
  have stamped : stampedTable.Stamped untilThird := by
    intro row stored
    rcases List.mem_pair.mp stored with rfl | rfl
    · refine ⟨⟨2024, 1, 2, 0, 0, 0, [], some (false, 14, 0), by decide, by decide, by decide⟩, ?_, ?_, ?_⟩
      · decide
      · decide
      · exact fun _ => by decide
    · refine ⟨⟨2024, 1, 2, 12, 0, 0, [5], none, by decide, by decide, by decide⟩, ?_, ?_, ?_⟩
      · decide
      · decide
      · exact fun _ => by decide
  have summed : (querySummary .utc untilThird (some .day) .utc {} pricedModel).run stampedTable = .ok stampedSummary := by
    decide +kernel
  have listed : (queryBreakdown .utc .model untilThird (some .day) .utc {} pricedModel
      [("sk-*******-0001", "team")]).run stampedTable = .ok stampedBreakdown := by decide +kernel
  have noSkip : Zone.utc.NoHourSkipped := trivial
  have divide : Zone.utc.OffsetsDivide (sliceSeconds * microsPerSecond) :=
    ⟨dvd_zero _, fun t member => absurd member List.not_mem_nil⟩
  exact views_agree stamped.selects noSkip divide summed listed

/-- A request whose offset SQLite does not read, and an earlier one. -/
def farTable : Requests :=
  ⟨[stampedRow "2023-12-31T12:00:00Z" "m" 100, stampedRow "2024-01-02T00:00:00+15:00" "m" 200], by decide⟩

/-- A request at the end of the last day of a month. -/
def midnightTable : Requests := ⟨[stampedRow "2024-01-31T24:00:00Z" "m" 100], by decide⟩

/-- The last two hours of the first of February. -/
def lastHours : Window := ⟨some 1706824800000000, 1706832000000000⟩

def farStamps : List Stamp :=
  [⟨2023, 12, 31, 12, 0, 0, [], none, by decide, by decide, by decide⟩,
    ⟨2024, 1, 2, 0, 0, 0, [], some (false, 15, 0), by decide, by decide, by decide⟩]

def midnightStamps : List Stamp := [⟨2024, 1, 31, 24, 0, 0, [], none, by decide, by decide, by decide⟩]

/-- The requests that the series of a summary show, and the requests that its totals show. -/
def shownRequests (window : Window) (requested : Bucket) (table : Requests) : Option (ℚ × ℤ) :=
  ((querySummary .utc window (some requested) .utc {} pricedModel).run table).toOption.map fun summary =>
    (summary.series.requests.sum, summary.current.requests)

/-- An offset past 14:59 may start an all-time axis late, and a clock at 24 puts a request into a window
after its slice. -/
theorem views_disagree :
    (farTable.rows.map RequestRow.timestamp = farStamps.map Stamp.text ∧
      shownRequests untilThird .day farTable = some (0, 1) ∧
      ((queryBreakdown .utc .model untilThird (some .day) .utc {} pricedModel []).run farTable).toOption.isSome) ∧
    midnightTable.rows.map RequestRow.timestamp = midnightStamps.map Stamp.text ∧
      shownRequests lastHours .hour midnightTable = some (0, 1) ∧
      ((queryBreakdown .utc .model lastHours (some .hour) .utc {} pricedModel []).run midnightTable).toOption.isSome := by
  refine ⟨⟨?_, ?_, ?_⟩, ?_, ?_, ?_⟩
  · decide
  · decide +kernel
  · decide +kernel
  · decide
  · decide +kernel
  · decide +kernel

end CliproxyUsage
