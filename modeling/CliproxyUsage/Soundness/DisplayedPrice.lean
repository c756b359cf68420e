import CliproxyUsage.Proofs.SameCells

/-! # The displayed price determines the bill

A breakdown by model shows each model's price as rates per million tokens, with one optional long-context
tier, rounded. Before rounding nothing that bills a request is lost: the row costs what its requests cost at
the displayed price, however many model ids share the row's key.
-/

namespace CliproxyUsage

open Python Machine

/-- USD per 1M tokens, as displayed but for the rounding. -/
def perMillion (rates : Rates) : UnitPrices where
  input := rates.input * 1000000
  output := rates.output * 1000000
  cacheRead := rates.cacheRead * 1000000
  cacheWrite := rates.cacheCreation * 1000000

/-- The displayed price of a plan before rounding. -/
def exactPrice (plan : CostPlan) : ModelPrice :=
  { perMillion plan.base with
    longContext :=
      if plan.above = plan.base then none
      else some { perMillion plan.above with threshold := plan.threshold, wholeRequest := plan.switch }
    cachedInInput := plan.openai }

def UnitPrices.rounded (prices : UnitPrices) : UnitPrices where
  input := round6 prices.input
  output := round6 prices.output
  cacheRead := round6 prices.cacheRead
  cacheWrite := round6 prices.cacheWrite

def ModelPrice.rounded (price : ModelPrice) : ModelPrice :=
  { price.toUnitPrices.rounded with
    longContext := price.longContext.map fun long => { long with toUnitPrices := long.toUnitPrices.rounded }
    cachedInInput := price.cachedInInput }

/-- The displayed price is the exact one, rounded. -/
theorem modelPrice_eq (plan : Option CostPlan) : modelPrice plan = plan.map fun plan => (exactPrice plan).rounded := by
  cases plan with
  | none => rfl
  | some plan =>
    simp only [modelPrice, Option.map_some, exactPrice, ModelPrice.rounded]
    split <;> rfl

section Bills

def UnitPrices.bill (prices : UnitPrices) (amounts : Amounts) : ℚ :=
  (amounts.input * prices.input + amounts.output * prices.output + amounts.cacheCreation * prices.cacheWrite +
    amounts.cacheRead * prices.cacheRead) / 1000000

/-- The amounts that a request bills under a displayed price: cached tokens are part of its input or beside it. -/
def ModelPrice.amounts (price : ModelPrice) (row : RequestRow) : Amounts :=
  if price.cachedInInput then
    ⟨row.inputTokens - min row.cachedTokens row.inputTokens, row.outputTokens, 0, min row.cachedTokens row.inputTokens⟩
  else ⟨row.inputTokens, row.outputTokens, 0, row.cachedTokens⟩

/-- The cost of one request by the displayed price alone. -/
def ModelPrice.requestCost (price : ModelPrice) (row : RequestRow) : ℚ :=
  let amounts := price.amounts row
  match price.longContext with
  | none => price.toUnitPrices.bill amounts
  | some long =>
    if long.wholeRequest then
      if long.threshold < amounts.input + amounts.cacheRead then long.toUnitPrices.bill amounts
      else price.toUnitPrices.bill amounts
    else price.toUnitPrices.bill (amounts.below long.threshold) + long.toUnitPrices.bill (amounts.excess long.threshold)

private theorem bill_perMillion (rates : Rates) (amounts : Amounts) : (perMillion rates).bill amounts = rates.bill amounts := by
  simp only [UnitPrices.bill, perMillion, Rates.bill]
  ring

private theorem amounts_exactPrice (plan : CostPlan) (row : RequestRow) :
    (exactPrice plan).amounts row = plan.amounts row := by
  simp only [ModelPrice.amounts, exactPrice, CostPlan.amounts, CostPlan.freshInput, CostPlan.cacheReads]
  cases plan.openai <;> rfl

/-- Flat rates bill the two parts of an amount as the whole. -/
private theorem bill_below_excess (rates : Rates) {amounts : Amounts} (written : amounts.cacheCreation = 0)
    (threshold : ℤ) : rates.bill (amounts.below threshold) + rates.bill (amounts.excess threshold) = rates.bill amounts := by
  simp only [Rates.bill, Amounts.below, Amounts.excess, written]
  push_cast
  ring

/-- What the display leaves out bills nothing: a tier is dropped only where it charges the base rates. -/
theorem requestCost_exactPrice (plan : CostPlan) (row : RequestRow) :
    (exactPrice plan).requestCost row = plan.requestCost row := by
  rw [ModelPrice.requestCost, amounts_exactPrice, CostPlan.requestCost]
  by_cases flat : plan.above = plan.base
  · have shown : (exactPrice plan).longContext = none := if_pos flat
    have base : (exactPrice plan).toUnitPrices.bill (plan.amounts row) = plan.base.bill (plan.amounts row) :=
      bill_perMillion plan.base _
    simp only [shown, base, flat, bill_below_excess plan.base (show (plan.amounts row).cacheCreation = 0 from rfl),
      ite_self]
  · have shown : (exactPrice plan).longContext =
        some { perMillion plan.above with threshold := plan.threshold, wholeRequest := plan.switch } := if_neg flat
    have base (amounts : Amounts) : (exactPrice plan).toUnitPrices.bill amounts = plan.base.bill amounts :=
      bill_perMillion plan.base amounts
    simp only [shown, base, bill_perMillion]

end Bills

/-- The price of the models of a display key before rounding. -/
def shownPrice (host : Host) (pricing : PricingMap) (key : String) : Option ModelPrice :=
  (resolve host.lower key pricing).1.map fun entry => exactPrice (costPlan host.lower entry)

section Rows

variable {host : Host} {pricing : PricingMap} {aliases : List (String × String)}

private theorem price_of_mem {hasPricing : Bool} {n : ℕ} {position : Cell → Option ℕ} {cells : List Cell}
    {previous : Option (List Cell)} (resolved : ∀ c ∈ cells, c.Resolved host pricing) {row : BreakdownRow}
    (member : row ∈ breakdownRows .model aliases hasPricing n position cells previous) :
    row.price = (shownPrice host pricing row.key).map ModelPrice.rounded := by
  obtain ⟨⟨c, present, key⟩, _⟩ := mem_breakdownRows member
  have some_ : ofKey .model row.key cells ≠ [] := List.ne_nil_of_mem (mem_ofKey present key)
  have plan := lookup_plan resolved row.key
  rw [if_neg some_] at plan
  obtain ⟨entry, _, rfl⟩ := List.mem_map.mp member
  simp only [if_pos, plan, modelPrice_eq, shownPrice, Option.map_map]
  rfl

private theorem requestCost_shownPrice {key : String} {row : RequestRow} (own : modelKey row.model = key)
    {price : ModelPrice} (shown : shownPrice host pricing key = some price) :
    requestCost host pricing row = price.requestCost row := by
  obtain ⟨entry, found, rfl⟩ := Option.map_eq_some_iff.mp shown
  rw [requestCost, planFor, own, found, requestCost_exactPrice]
  rfl

/-- A row has a cost where its key has a price. -/
private theorem cost_eq_none_iff {hasPricing : Bool} {cells : List Cell} (priced : ∀ c ∈ cells, c.Priced hasPricing)
    (resolved : ∀ c ∈ cells, c.Resolved host pricing) {key : String} (some_ : ∃ c ∈ cells, c.key .model = key) :
    (((ofKey .model key cells).foldl Acc.add {}).totals hasPricing).cost = none ↔ shownPrice host pricing key = none := by
  have status : ∀ c ∈ ofKey .model key cells, (c.status = .missing ↔ shownPrice host pricing key = none) := by
    intro c member
    obtain ⟨present, own⟩ := List.mem_filter.mp member
    have model : c.model = key := of_decide_eq_true own
    rw [(resolved c present).1, model, resolve_missing, shownPrice, Option.map_eq_none_iff]
  obtain ⟨c, present, own⟩ := some_
  have member : c ∈ ofKey .model key cells := mem_ofKey present own
  rw [cost_eq_none]
  constructor
  · intro missing
    exact (status c member).mp (status_of_costStatus (fun c member => priced c (mem_of_ofKey member)) missing c member)
  · intro none_
    exact costStatus_missing member fun c member => (status c member).mpr none_

/-- In a breakdown by model, a row's price is the rounding of an exact price, null just where its cost is, and
at which the counted requests of the row's key cost, one by one, what the row costs. -/
theorem displayed_price_bills {window : Window} {requested : Option Bucket} {tz : Zone} {filters : Filters}
    {table : Requests} {response : BreakdownResponse}
    (answered : (queryBreakdown host .model window requested tz filters pricing aliases).run table = .ok response) :
    ∀ row ∈ response.rows,
      row.price = (shownPrice host pricing row.key).map ModelPrice.rounded ∧
        (row.price = none ↔ row.current.cost = none) ∧
        ∀ price, shownPrice host pricing row.key = some price →
          row.current.cost = some (((table.rows.filter (counted (some window) filters)).filter fun request =>
            decide (modelKey request.model = row.key)).map price.requestCost).sum := by
  obtain ⟨ax, _, cells, fetched, previous, _, rfl⟩ := run_queryBreakdown_ok_iff.mp answered
  intro row member
  have priced : ∀ c ∈ cells, c.Priced pricing.nonEmpty := fun c => priced_of_mem fetched
  have resolved : ∀ c ∈ cells, c.Resolved host pricing := fun c => resolved_of_mem fetched
  have price := price_of_mem resolved member
  obtain ⟨known, current, _⟩ := mem_breakdownRows member
  have null := cost_eq_none_iff priced resolved known
  rw [← current] at null
  refine ⟨price, ?_, ?_⟩
  · rw [price, Option.map_eq_none_iff, null]
  · intro exact_ shown
    obtain ⟨cost, bills⟩ := Option.ne_none_iff_exists'.mp fun none_ => nomatch shown.symm.trans (null.mp none_)
    have whole : cost = ((ofKey .model row.key cells).map (·.measure .cost)).sum := by
      rw [← totals_measure  fun c member => priced c (mem_of_ofKey member), ← current,
        Totals.measure, bills]
      rfl
    have each := sum_cells_filter fetched (fun label => decide (label.model = row.key)) .cost
    change ((ofKey .model row.key cells).map (·.measure .cost)).sum = _ at each
    rw [bills, whole, each]
    refine congrArg some (congrArg List.sum (List.map_congr_left fun request listed => ?_))
    exact requestCost_shownPrice (of_decide_eq_true (List.mem_filter.mp listed).2) shown

end Rows

/-- A price that moves a long request to the rates above as a whole. -/
def steppedPrice : ModelPricing where
  inputCostPerToken := 1 / 1000000
  outputCostPerToken := 2 / 1000000
  inputCostPerTokenAbove272kTokens := some (3 / 1000000)

def steppedPricing : PricingMap := ⟨[("<empty>", steppedPrice)], by decide⟩

def steppedRow (timestamp model : String) (inputTokens : ℤ) : RequestRow :=
  ⟨timestamp, "sk-team-0001", model, "dev@example.com", "0", 1200, inputTokens, 1000, 0, 0, inputTokens + 1000, 0⟩

/-- Two model ids of one display key, and a long request of the second. -/
def steppedTable : Requests :=
  ⟨[steppedRow "2024-01-01T10:00:00Z" "" 100000, steppedRow "2024-01-02T11:00:00Z" "<empty>" 300000], by decide⟩

/-- All time before the third of January. -/
def steppedWindow : Window := ⟨none, 1704240000000000⟩

def steppedBreakdown : BreakdownResponse where
  dim := .model
  bucket := .day
  buckets := [⟨1704067200000000, false⟩, ⟨1704153600000000, false⟩]
  rows :=
    [⟨"<empty>", "<empty>", ⟨2, 0, 400000, 2000, 0, 0, some (251 / 250), .live, 1200, some 1704193200000000⟩, none,
      ⟨[51 / 500, 451 / 500], [100000, 300000], [1000, 1000], [0, 0]⟩,
      [⟨"sk-*******-0001", "sk-*******-0001", some (251 / 250), 400000, 2000, 0⟩],
      some ⟨⟨1, 2, 1 / 10, 5 / 4⟩, some ⟨⟨3, 2, 1 / 10, 5 / 4⟩, 272000, true⟩, false⟩⟩]

theorem displayed_price_bills_stepped :
    (shownPrice .utc steppedPricing "<empty>").isSome ∧ ∀ row ∈ steppedBreakdown.rows,
      row.price = (shownPrice .utc steppedPricing row.key).map ModelPrice.rounded ∧
        (row.price = none ↔ row.current.cost = none) ∧
        ∀ price, shownPrice .utc steppedPricing row.key = some price →
          row.current.cost = some (((steppedTable.rows.filter (counted (some steppedWindow) {})).filter fun request =>
            decide (modelKey request.model = row.key)).map price.requestCost).sum := by
  have answered : (queryBreakdown .utc .model steppedWindow (some .day) .utc {} steppedPricing []).run steppedTable =
      .ok steppedBreakdown := by decide +kernel
  exact ⟨rfl, displayed_price_bills answered⟩

end CliproxyUsage
