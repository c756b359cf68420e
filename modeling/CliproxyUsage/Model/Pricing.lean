import CliproxyUsage.Python.Text
import Mathlib.Data.Finset.Basic
import Mathlib.Data.List.Nodup
import Mathlib.Data.Rat.Defs

/-! # Model prices and billing plans

The pricing map, the resolution of a model name in it, and the plan that says how one model bills
a request. Rates and costs are exact rationals. `lower` is the `str.lower` of the interpreter.
-/

namespace CliproxyUsage

inductive PricingResolution where
  | live
  | missing
deriving DecidableEq, Repr

inductive CostStatus where
  | live
  | partialMissing
  | missing
deriving DecidableEq, Repr

/-- One entry of the LiteLLM price list; the base input and output rates are required. -/
structure ModelPricing where
  litellmProvider : Option String := none
  inputCostPerToken : ℚ
  outputCostPerToken : ℚ
  cacheCreationInputTokenCost : Option ℚ := none
  cacheReadInputTokenCost : Option ℚ := none
  inputCostPerTokenAbove200kTokens : Option ℚ := none
  outputCostPerTokenAbove200kTokens : Option ℚ := none
  cacheCreationInputTokenCostAbove200kTokens : Option ℚ := none
  cacheReadInputTokenCostAbove200kTokens : Option ℚ := none
  inputCostPerTokenAbove272kTokens : Option ℚ := none
  outputCostPerTokenAbove272kTokens : Option ℚ := none
  cacheCreationInputTokenCostAbove272kTokens : Option ℚ := none
  cacheReadInputTokenCostAbove272kTokens : Option ℚ := none
deriving DecidableEq, Repr

/-- A dictionary of prices, in insertion order. -/
structure PricingMap where
  entries : List (String × ModelPricing)
  uniqueKeys : (entries.map Prod.fst).Nodup

namespace PricingMap

def empty : PricingMap := ⟨[], List.nodup_nil⟩

def get? (pricing : PricingMap) (key : String) : Option ModelPricing := pricing.entries.lookup key

/-- `bool(pricing)`. -/
def nonEmpty (pricing : PricingMap) : Bool := !pricing.entries.isEmpty

end PricingMap

def prefixCandidates : List String :=
  ["anthropic/", "claude-3-5-", "claude-3-", "claude-", "openai/", "azure/", "openrouter/openai/"]

def openaiLitellmProviders : List String := ["openai", "azure"]

def threshold200k : ℤ := 200000

def threshold272k : ℤ := 272000

/-- The price of a model: its own entry, the entry under a known prefix, or the first entry whose
key contains the name or is contained in it, ignoring case. -/
def resolve (lower : String → String) (modelName : String) (pricing : PricingMap) :
    Option ModelPricing × PricingResolution :=
  let substring := fun entry : String × ModelPricing =>
    Python.contains (lower entry.1) (lower modelName) || Python.contains (lower modelName) (lower entry.1)
  let found := (pricing.get? modelName).orElse fun _ =>
    (prefixCandidates.findSome? fun head => pricing.get? (head ++ modelName)).orElse fun _ =>
      (pricing.entries.find? substring).map Prod.snd
  (found, if found.isSome then .live else .missing)

/-- Roll per-component statuses into one; no components means nothing is unpriced. -/
def rollupCostStatus (statuses : Finset PricingResolution) : CostStatus :=
  if .missing ∉ statuses then .live
  else if .live ∈ statuses then .partialMissing
  else .missing

/-- USD per token for each token type. -/
structure Rates where
  input : ℚ
  output : ℚ
  cacheCreation : ℚ
  cacheRead : ℚ
deriving DecidableEq, Repr

/-- Token counts of the types that `Rates` prices. -/
structure Amounts where
  input : ℤ
  output : ℤ
  cacheCreation : ℤ
  cacheRead : ℤ
deriving DecidableEq, Repr

/-- How one model bills a request. -/
structure CostPlan where
  /-- Cached tokens are reported inside the input tokens. -/
  openai : Bool
  /-- Past the threshold the whole request bills at `above`, not only each type's excess. -/
  switch : Bool
  threshold : ℤ
  base : Rates
  above : Rates
deriving DecidableEq, Repr

/-- The cost of token counts at fixed rates. -/
def Rates.bill (rates : Rates) (amounts : Amounts) : ℚ :=
  amounts.input * rates.input + amounts.output * rates.output +
    amounts.cacheCreation * rates.cacheCreation + amounts.cacheRead * rates.cacheRead

/-- Cost of token sums billed at the base and above rates. -/
def CostPlan.price (plan : CostPlan) (base above : Amounts) : ℚ :=
  plan.base.bill base + plan.above.bill above

/-- Whether cached input is reported as a subset of input tokens. -/
def usesOpenaiTokenAccounting (lower : String → String) (pricing : ModelPricing) : Bool :=
  lower (Python.strip (pricing.litellmProvider.getD "")) ∈ openaiLitellmProviders

/-- The optional rates of one long-context tier, in the order of `Rates`. -/
structure Tier where
  input : Option ℚ
  output : Option ℚ
  cacheCreation : Option ℚ
  cacheRead : Option ℚ

def ModelPricing.above200k (pricing : ModelPricing) : Tier where
  input := pricing.inputCostPerTokenAbove200kTokens
  output := pricing.outputCostPerTokenAbove200kTokens
  cacheCreation := pricing.cacheCreationInputTokenCostAbove200kTokens
  cacheRead := pricing.cacheReadInputTokenCostAbove200kTokens

def ModelPricing.above272k (pricing : ModelPricing) : Tier where
  input := pricing.inputCostPerTokenAbove272kTokens
  output := pricing.outputCostPerTokenAbove272kTokens
  cacheCreation := pricing.cacheCreationInputTokenCostAbove272kTokens
  cacheRead := pricing.cacheReadInputTokenCostAbove272kTokens

def Tier.any (tier : Tier) : Bool :=
  tier.input.isSome || tier.output.isSome || tier.cacheCreation.isSome || tier.cacheRead.isSome

/-- The tier's rates, each defaulting to the base rate. -/
def Tier.orBase (tier : Tier) (base : Rates) : Rates where
  input := tier.input.getD base.input
  output := tier.output.getD base.output
  cacheCreation := tier.cacheCreation.getD base.cacheCreation
  cacheRead := tier.cacheRead.getD base.cacheRead

/-- Derive the billing plan of a price entry. -/
def costPlan (lower : String → String) (pricing : ModelPricing) : CostPlan :=
  let openai := usesOpenaiTokenAccounting lower pricing
  let inp := pricing.inputCostPerToken
  let cacheRead := pricing.cacheReadInputTokenCost
  let base : Rates :=
    { input := inp
      output := pricing.outputCostPerToken
      cacheCreation := pricing.cacheCreationInputTokenCost.getD (inp * (5 / 4))
      cacheRead := cacheRead.getD (if openai then inp else inp * (1 / 10)) }
  let has200k := pricing.above200k.any
  let has272k := pricing.above272k.any
  let switch := openai || (has272k && !has200k)
  let (threshold, tier) :=
    if switch && has272k then (threshold272k, pricing.above272k) else (threshold200k, pricing.above200k)
  let above := tier.orBase base
  let above :=
    -- Codex bills unpriced cache reads of long requests at the long input rate.
    if openai && cacheRead.isNone then { above with cacheRead := above.input } else above
  ⟨openai, switch, threshold, base, above⟩

end CliproxyUsage
