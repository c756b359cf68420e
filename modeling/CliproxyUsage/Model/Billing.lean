import CliproxyUsage.Model.Cells

/-! # What one request costs

The billing rule for a single request, stated on its own: which tokens count as input and as cache
reads under each accounting, and which of them bill at the rates above the threshold. The grouped
query never evaluates it; that its sums price the same is a theorem.
-/

namespace CliproxyUsage

/-- The tokens of a request that bill as cache reads. -/
def CostPlan.cacheReads (plan : CostPlan) (row : RequestRow) : ℤ :=
  if plan.openai then min row.cachedTokens row.inputTokens else row.cachedTokens

/-- The tokens of a request that bill as input. -/
def CostPlan.freshInput (plan : CostPlan) (row : RequestRow) : ℤ :=
  if plan.openai then row.inputTokens - plan.cacheReads row else row.inputTokens

def CostPlan.amounts (plan : CostPlan) (row : RequestRow) : Amounts :=
  ⟨plan.freshInput row, row.outputTokens, 0, plan.cacheReads row⟩

/-- The part of each amount up to the threshold. -/
def Amounts.below (amounts : Amounts) (threshold : ℤ) : Amounts :=
  ⟨min amounts.input threshold, min amounts.output threshold, 0, min amounts.cacheRead threshold⟩

/-- The part of each amount past the threshold. -/
def Amounts.excess (amounts : Amounts) (threshold : ℤ) : Amounts :=
  ⟨amounts.input - min amounts.input threshold, amounts.output - min amounts.output threshold, 0,
    amounts.cacheRead - min amounts.cacheRead threshold⟩

/-- The cost of one request: a switching plan moves a long request to the rates above as a whole,
any other plan moves only each amount's excess. -/
def CostPlan.requestCost (plan : CostPlan) (row : RequestRow) : ℚ :=
  let amounts := plan.amounts row
  if plan.switch then
    if plan.threshold < amounts.input + amounts.cacheRead then plan.above.bill amounts else plan.base.bill amounts
  else plan.base.bill (amounts.below plan.threshold) + plan.above.bill (amounts.excess plan.threshold)

/-- The plan of a model, or none when it has no price. -/
def planFor (host : Host) (pricing : PricingMap) (model : String) : Option CostPlan :=
  (resolve host.lower (modelKey model) pricing).1.map (costPlan host.lower)

/-- The cost of a request; an unpriced model costs nothing. -/
def requestCost (host : Host) (pricing : PricingMap) (row : RequestRow) : ℚ :=
  match planFor host pricing row.model with
  | none => 0
  | some plan => plan.requestCost row

end CliproxyUsage
