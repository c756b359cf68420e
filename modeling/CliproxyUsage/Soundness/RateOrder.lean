import CliproxyUsage.Model.Billing
import Mathlib.Tactic.Linarith

/-! # What an extra token costs

With a price entry whose long-context rates are no lower than its base rates, the plan derived from it
bills every extra token at the base rate at least, and unless a threshold moves the whole request, at the
long-context rate at most. Where cached tokens are part of the input, a token that is served from the cache
costs no more than a fresh one.
-/

namespace CliproxyUsage

/-- No rate of the types that requests use is above the second one. -/
structure Rates.Below (first second : Rates) : Prop where
  input : first.input ≤ second.input
  output : first.output ≤ second.output
  cacheRead : first.cacheRead ≤ second.cacheRead

def Rates.free : Rates := ⟨0, 0, 0, 0⟩

/-- A price entry without negative rates, whose long-context rates are no lower than those below. -/
structure ModelPricing.Ordered (lower : String → String) (pricing : ModelPricing) : Prop where
  input : 0 ≤ pricing.inputCostPerToken
  output : 0 ≤ pricing.outputCostPerToken
  cacheRead : ∀ rate ∈ pricing.cacheReadInputTokenCost, 0 ≤ rate
  tiers : ∀ tier ∈ [pricing.above200k, pricing.above272k],
    (∀ rate ∈ tier.input, pricing.inputCostPerToken ≤ rate) ∧
    (∀ rate ∈ tier.output, pricing.outputCostPerToken ≤ rate) ∧
    ∀ rate ∈ tier.cacheRead, (costPlan lower pricing).base.cacheRead ≤ rate

/-- More tokens of every type than the other amounts. -/
structure Amounts.Within (first second : Amounts) : Prop where
  input : first.input ≤ second.input
  output : first.output ≤ second.output
  cacheRead : first.cacheRead ≤ second.cacheRead

/-- A request with no fewer tokens, and no token count below zero. Where cached tokens are part of the
input, they are the same. -/
structure RequestRow.Extends (openai : Bool) (row more : RequestRow) : Prop where
  input : row.inputTokens ≤ more.inputTokens
  output : row.outputTokens ≤ more.outputTokens
  cached : row.cachedTokens ≤ more.cachedTokens
  sameCached : openai = true → row.cachedTokens = more.cachedTokens
  counts : 0 ≤ more.inputTokens ∧ 0 ≤ more.outputTokens ∧ 0 ≤ more.cachedTokens

variable {lower : String → String} {pricing : ModelPricing} {plan : CostPlan} {row more : RequestRow}

section Plan

theorem getD_ge {rate : Option ℚ} {bound fallback : ℚ} (given : ∀ r ∈ rate, bound ≤ r)
    (absent : bound ≤ fallback) : bound ≤ rate.getD fallback := by
  cases rate with
  | none => exact absent
  | some r => exact given r rfl

theorem below_orBase {tier : Tier} {rates base : Rates} (below : rates.Below base)
    (input : ∀ rate ∈ tier.input, rates.input ≤ rate) (output : ∀ rate ∈ tier.output, rates.output ≤ rate)
    (cacheRead : ∀ rate ∈ tier.cacheRead, rates.cacheRead ≤ rate) : rates.Below (tier.orBase base) where
  input := getD_ge input below.input
  output := getD_ge output below.output
  cacheRead := getD_ge cacheRead below.cacheRead

/-- The rates above the threshold are those of a tier, but for cache reads without a rate of their own. -/
theorem costPlan_above (lower : String → String) (pricing : ModelPricing) :
    ∃ tier ∈ [pricing.above200k, pricing.above272k],
      (costPlan lower pricing).above = tier.orBase (costPlan lower pricing).base ∨
      pricing.cacheReadInputTokenCost = none ∧ (costPlan lower pricing).openai = true ∧
        (costPlan lower pricing).above = { tier.orBase (costPlan lower pricing).base with
          cacheRead := (tier.orBase (costPlan lower pricing).base).input } := by
  rw [costPlan]
  dsimp only
  generalize chosen : (if ((usesOpenaiTokenAccounting lower pricing ||
    pricing.above272k.any && !pricing.above200k.any) && pricing.above272k.any) = true
    then (threshold272k, pricing.above272k) else (threshold200k, pricing.above200k) : ℤ × Tier) = pair
  have known : pair.2 ∈ [pricing.above200k, pricing.above272k] := by
    rw [← chosen]
    split <;> simp
  obtain ⟨threshold, tier⟩ := pair
  refine ⟨tier, known, ?_⟩
  dsimp only
  split
  · next own =>
    rw [Bool.and_eq_true, Option.isNone_iff_eq_none] at own
    exact .inr ⟨own.2, own.1, rfl⟩
  · exact .inl rfl

theorem free_below_base (input : 0 ≤ pricing.inputCostPerToken) (output : 0 ≤ pricing.outputCostPerToken)
    (cacheRead : ∀ rate ∈ pricing.cacheReadInputTokenCost, 0 ≤ rate) :
    Rates.free.Below (costPlan lower pricing).base where
  input := input
  output := output
  cacheRead := by
    apply getD_ge cacheRead
    split
    · exact input
    · exact mul_nonneg input (by norm_num [Rates.free])

theorem base_below_above (ordered : pricing.Ordered lower) :
    (costPlan lower pricing).base.Below (costPlan lower pricing).above := by
  obtain ⟨tier, known, same | ⟨unpriced, openai, same⟩⟩ := costPlan_above lower pricing
  · obtain ⟨input, output, cacheRead⟩ := ordered.tiers tier known
    rw [same]
    exact below_orBase ⟨le_rfl, le_rfl, le_rfl⟩ input output cacheRead
  · obtain ⟨input, output, cacheRead⟩ := ordered.tiers tier known
    have whole : (costPlan lower pricing).base.Below (tier.orBase (costPlan lower pricing).base) :=
      below_orBase ⟨le_rfl, le_rfl, le_rfl⟩ input output cacheRead
    have level : (costPlan lower pricing).base.cacheRead = (costPlan lower pricing).base.input := by
      have accounts : usesOpenaiTokenAccounting lower pricing = true := openai
      simp [costPlan, unpriced, accounts]
    rw [same]
    exact ⟨whole.input, whole.output, level.le.trans whole.input⟩

end Plan

section Amounts

theorem amounts_within (extends_ : row.Extends plan.openai more) :
    (plan.amounts row).Within (plan.amounts more) := by
  have input := extends_.input
  have cached := extends_.cached
  have same := extends_.sameCached
  constructor
  · simp only [CostPlan.amounts, CostPlan.freshInput, CostPlan.cacheReads]
    split
    · next openai =>
      have same := same openai
      omega
    · exact input
  · exact extends_.output
  · simp only [CostPlan.amounts, CostPlan.cacheReads]
    split <;> omega

/-- Rates that are no lower bill no less for tokens that are there. -/
theorem bill_le_bill {first second : Rates} (below : first.Below second) {amounts : Amounts}
    (unwritten : amounts.cacheCreation = 0) (counts : 0 ≤ amounts.input ∧ 0 ≤ amounts.output ∧ 0 ≤ amounts.cacheRead) :
    first.bill amounts ≤ second.bill amounts := by
  obtain ⟨input, output, cacheRead⟩ := counts
  have one := mul_le_mul_of_nonneg_left below.input (Int.cast_nonneg input : (0 : ℚ) ≤ amounts.input)
  have two := mul_le_mul_of_nonneg_left below.output (Int.cast_nonneg output : (0 : ℚ) ≤ amounts.output)
  have three := mul_le_mul_of_nonneg_left below.cacheRead (Int.cast_nonneg cacheRead : (0 : ℚ) ≤ amounts.cacheRead)
  simp only [Rates.bill, unwritten, Int.cast_zero, zero_mul]
  linarith

/-- The difference of two bills grows with the rates when one has more tokens than the other. -/
theorem bill_sub_le {first second : Rates} (below : first.Below second) {amounts greater : Amounts}
    (within : amounts.Within greater) (unwritten : amounts.cacheCreation = 0) (unwritten' : greater.cacheCreation = 0) :
    first.bill greater - first.bill amounts ≤ second.bill greater - second.bill amounts := by
  have extra := @bill_le_bill _ _ below ⟨greater.input - amounts.input, greater.output - amounts.output, 0,
    greater.cacheRead - amounts.cacheRead⟩ rfl ⟨sub_nonneg.mpr within.input, sub_nonneg.mpr within.output,
    sub_nonneg.mpr within.cacheRead⟩
  simp only [Rates.bill, unwritten, unwritten', Int.cast_sub, Int.cast_zero, zero_mul] at extra ⊢
  linarith

end Amounts

/-- One type of token under a marginal threshold: an extra token bills between the two rates. -/
private theorem marginal_bounds {base above : ℚ} (order : base ≤ above) {count greater : ℤ} (grows : count ≤ greater)
    (threshold : ℤ) :
    let cost (n : ℤ) : ℚ := (min n threshold : ℤ) * base + (n - min n threshold : ℤ) * above
    (greater - count : ℤ) * base ≤ cost greater - cost count ∧
      cost greater - cost count ≤ (greater - count : ℤ) * above := by
  intro cost
  -- The extra tokens split into those up to the threshold and those past it.
  have under : (0 : ℚ) ≤ (min greater threshold - min count threshold : ℤ) := by
    rw [Int.cast_nonneg_iff]
    omega
  have past : (0 : ℚ) ≤ (greater - min greater threshold - (count - min count threshold) : ℤ) := by
    rw [Int.cast_nonneg_iff]
    omega
  have low := mul_le_mul_of_nonneg_left order past
  have high := mul_le_mul_of_nonneg_left order under
  simp only [cost]
  push_cast at low high ⊢
  constructor <;> linarith

section Cost

variable (base_above : plan.base.Below plan.above) (extends_ : row.Extends plan.openai more)
include base_above extends_

private theorem marginal_cost (marginal : plan.switch = false) :
    plan.base.bill (plan.amounts more) - plan.base.bill (plan.amounts row) ≤
        plan.requestCost more - plan.requestCost row ∧
      plan.requestCost more - plan.requestCost row ≤
        plan.above.bill (plan.amounts more) - plan.above.bill (plan.amounts row) := by
  have within := amounts_within extends_
  have input := marginal_bounds base_above.input within.input plan.threshold
  have output := marginal_bounds base_above.output within.output plan.threshold
  have cacheRead := marginal_bounds base_above.cacheRead within.cacheRead plan.threshold
  have unwritten (row : RequestRow) : (plan.amounts row).cacheCreation = 0 := rfl
  simp only [CostPlan.requestCost, marginal, Bool.false_eq_true, if_false, Rates.bill, Amounts.below, Amounts.excess,
    unwritten, Int.cast_zero, zero_mul, add_zero]
  push_cast at input output cacheRead ⊢
  constructor <;> linarith [input.1, input.2, output.1, output.2, cacheRead.1, cacheRead.2]

private theorem switched_cost (switches : plan.switch = true) :
    plan.base.bill (plan.amounts more) - plan.base.bill (plan.amounts row) ≤
      plan.requestCost more - plan.requestCost row := by
  have within := amounts_within extends_
  have counts : 0 ≤ (plan.amounts more).input ∧ 0 ≤ (plan.amounts more).output ∧ 0 ≤ (plan.amounts more).cacheRead := by
    obtain ⟨input, output, cached⟩ := extends_.counts
    simp only [CostPlan.amounts, CostPlan.freshInput, CostPlan.cacheReads]
    split <;> omega
  have moved := bill_le_bill base_above rfl counts
  have apart := bill_sub_le base_above within rfl rfl
  have grows : (plan.amounts row).input + (plan.amounts row).cacheRead ≤
      (plan.amounts more).input + (plan.amounts more).cacheRead := add_le_add within.input within.cacheRead
  simp only [CostPlan.requestCost, switches, if_true]
  -- The request gets no shorter: both bill alike, or only the longer one moves to the rates above.
  split <;> split
  · exact apart
  · linarith
  · omega
  · exact le_rfl

end Cost

/-- The bill of an ordered price entry: extra tokens cost their base rates at least, so no request costs less
than one with fewer tokens, and under a marginal threshold their long-context rates at most. Where cached
tokens are part of the input, and no cache read costs more than a fresh token, caching costs nothing. -/
theorem cost_follows_tokens (ordered : pricing.Ordered lower) :
    (∀ row more, RequestRow.Extends (costPlan lower pricing).openai row more →
      (costPlan lower pricing).base.bill ((costPlan lower pricing).amounts more) -
          (costPlan lower pricing).base.bill ((costPlan lower pricing).amounts row) ≤
        (costPlan lower pricing).requestCost more - (costPlan lower pricing).requestCost row ∧
      (costPlan lower pricing).requestCost row ≤ (costPlan lower pricing).requestCost more ∧
      ((costPlan lower pricing).switch = false →
        (costPlan lower pricing).requestCost more - (costPlan lower pricing).requestCost row ≤
          (costPlan lower pricing).above.bill ((costPlan lower pricing).amounts more) -
            (costPlan lower pricing).above.bill ((costPlan lower pricing).amounts row))) ∧
    ((costPlan lower pricing).openai = true →
      (costPlan lower pricing).base.cacheRead ≤ (costPlan lower pricing).base.input →
      (costPlan lower pricing).above.cacheRead ≤ (costPlan lower pricing).above.input →
      ∀ (row : RequestRow) (cached : ℤ), row.cachedTokens ≤ cached →
        (costPlan lower pricing).requestCost { row with cachedTokens := cached } ≤
          (costPlan lower pricing).requestCost row) := by
  have rising := base_below_above ordered
  constructor
  · intro row more extends_
    have low : (costPlan lower pricing).base.bill ((costPlan lower pricing).amounts more) -
        (costPlan lower pricing).base.bill ((costPlan lower pricing).amounts row) ≤
        (costPlan lower pricing).requestCost more - (costPlan lower pricing).requestCost row := by
      cases switch : (costPlan lower pricing).switch with
      | false => exact (marginal_cost rising extends_ switch).1
      | true => exact switched_cost rising extends_ switch
    have free : Rates.free.Below (costPlan lower pricing).base :=
      free_below_base ordered.input ordered.output ordered.cacheRead
    have positive := bill_sub_le free (amounts_within extends_) rfl rfl
    simp only [Rates.free, Rates.bill, mul_zero, add_zero, sub_zero] at positive
    refine ⟨low, ?_, fun marginal => (marginal_cost rising extends_ marginal).2⟩
    simp only [Rates.bill] at low
    linarith
  · intro openai base above row cached grows
    have switch : (costPlan lower pricing).switch = true := by
      have accounts : usesOpenaiTokenAccounting lower pricing = true := openai
      simp [costPlan, accounts]
    have moved : (0 : ℚ) ≤ (min cached row.inputTokens - min row.cachedTokens row.inputTokens : ℤ) := by
      rw [Int.cast_nonneg_iff]
      omega
    have low := mul_le_mul_of_nonneg_left base moved
    have high := mul_le_mul_of_nonneg_left above moved
    -- A cached token stays in the total, so both requests bill at the same rates.
    simp only [CostPlan.requestCost, switch, if_true, CostPlan.amounts, CostPlan.freshInput, CostPlan.cacheReads, openai,
      Rates.bill, sub_add_cancel]
    push_cast at low high ⊢
    split <;> linarith

/-- Marginal rates above 200k tokens. -/
def marginalPrice : ModelPricing where
  inputCostPerToken := 3 / 1000000
  outputCostPerToken := 15 / 1000000
  inputCostPerTokenAbove200kTokens := some (6 / 1000000)
  outputCostPerTokenAbove200kTokens := some (45 / 2000000)

/-- Cached tokens within the input, and a switch above 272k tokens. -/
def switchingPrice : ModelPricing where
  litellmProvider := some "openai"
  inputCostPerToken := 5 / 1000000
  outputCostPerToken := 30 / 1000000
  cacheReadInputTokenCost := some (1 / 2000000)
  inputCostPerTokenAbove272kTokens := some (10 / 1000000)
  outputCostPerTokenAbove272kTokens := some (45 / 1000000)
  cacheReadInputTokenCostAbove272kTokens := some (1 / 1000000)

def longRow (inputTokens cachedTokens : ℤ) : RequestRow :=
  ⟨"2026-03-01T10:00:00Z", "sk-a-0001", "m", "dev@example.com", "0", 1200, inputTokens, 500, 0, cachedTokens, 0, 0⟩

theorem cost_follows_tokens_long :
    (costPlan Python.asciiLower marginalPrice).requestCost (longRow 190000 10) ≤
        (costPlan Python.asciiLower marginalPrice).requestCost (longRow 290000 20) ∧
      (costPlan Python.asciiLower switchingPrice).requestCost { longRow 300000 0 with cachedTokens := 280000 } ≤
        (costPlan Python.asciiLower switchingPrice).requestCost (longRow 300000 0) := by
  have marginal : marginalPrice.Ordered Python.asciiLower := by constructor <;> decide +kernel
  have switching : switchingPrice.Ordered Python.asciiLower := by constructor <;> decide +kernel
  have extends_ : (longRow 190000 10).Extends (costPlan Python.asciiLower marginalPrice).openai (longRow 290000 20) := by
    constructor <;> decide +kernel
  constructor
  · exact ((cost_follows_tokens marginal).1 _ _ extends_).2.1
  · exact (cost_follows_tokens switching).2 (by decide +kernel) (by decide +kernel) (by decide +kernel) _ _ (by decide)

end CliproxyUsage
