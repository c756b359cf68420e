import CliproxyUsage.Frontend.RichRows
import CliproxyUsage.Soundness.Charts
import CliproxyUsage.Soundness.RateOrder
import CliproxyUsage.Soundness.Totals

/-! # The table accounts for the response

Prices and stored counts that are not negative leave no negative amount in a response. So its table keeps every
row, the shares make up the whole, and the mix and the trend of a row add up to its value, whose highest bucket
is the first one with the greatest amount.
-/

namespace CliproxyUsage

open Python Machine

/-- A price entry without negative rates. -/
structure ModelPricing.Nonnegative (pricing : ModelPricing) : Prop where
  input : 0 ≤ pricing.inputCostPerToken
  output : 0 ≤ pricing.outputCostPerToken
  cacheRead : ∀ rate ∈ pricing.cacheReadInputTokenCost, 0 ≤ rate
  tiers : ∀ tier ∈ [pricing.above200k, pricing.above272k],
    (∀ rate ∈ tier.input, 0 ≤ rate) ∧ (∀ rate ∈ tier.output, 0 ≤ rate) ∧ ∀ rate ∈ tier.cacheRead, 0 ≤ rate

def PricingMap.Nonnegative (pricing : PricingMap) : Prop := ∀ entry ∈ pricing.entries, entry.2.Nonnegative

/-- Stored requests without negative token counts. -/
def Requests.Nonnegative (table : Requests) : Prop :=
  ∀ row ∈ table.rows, 0 ≤ row.inputTokens ∧ 0 ≤ row.outputTokens ∧ 0 ≤ row.cachedTokens

section Costs

variable {lower : String → String} {entry : ModelPricing} {pricing : PricingMap} {row : RequestRow}

private theorem free_below_above (nonnegative : entry.Nonnegative) : Rates.free.Below (costPlan lower entry).above := by
  have base : Rates.free.Below (costPlan lower entry).base :=
    free_below_base nonnegative.input nonnegative.output nonnegative.cacheRead
  obtain ⟨tier, known, same⟩ := costPlan_above lower entry
  obtain ⟨input, output, cacheRead⟩ := nonnegative.tiers tier known
  have whole : Rates.free.Below (tier.orBase (costPlan lower entry).base) := below_orBase base input output cacheRead
  rcases same with same | ⟨-, -, same⟩
  · rw [same]
    exact whole
  · rw [same]
    exact ⟨whole.input, whole.output, whole.input⟩

private theorem bill_nonneg {rates : Rates} (free : Rates.free.Below rates) {amounts : Amounts}
    (unwritten : amounts.cacheCreation = 0) (counts : 0 ≤ amounts.input ∧ 0 ≤ amounts.output ∧ 0 ≤ amounts.cacheRead) :
    0 ≤ rates.bill amounts := by
  have least := bill_le_bill free unwritten counts
  simpa [Rates.free, Rates.bill] using least

theorem plan_cost_nonneg (nonnegative : entry.Nonnegative)
    (counts : 0 ≤ row.inputTokens ∧ 0 ≤ row.outputTokens ∧ 0 ≤ row.cachedTokens) :
    0 ≤ (costPlan lower entry).requestCost row := by
  have base : Rates.free.Below (costPlan lower entry).base :=
    free_below_base nonnegative.input nonnegative.output nonnegative.cacheRead
  have above : Rates.free.Below (costPlan lower entry).above := free_below_above nonnegative
  have threshold : 0 ≤ (costPlan lower entry).threshold := by
    rw [costPlan]
    dsimp only
    split
    · exact Int.natCast_nonneg 272000
    · exact Int.natCast_nonneg 200000
  generalize costPlan lower entry = plan at *
  have amounts : 0 ≤ (plan.amounts row).input ∧ 0 ≤ (plan.amounts row).output ∧ 0 ≤ (plan.amounts row).cacheRead := by
    simp only [CostPlan.amounts, CostPlan.freshInput, CostPlan.cacheReads]
    split <;> omega
  rw [CostPlan.requestCost]
  split_ifs
  · exact bill_nonneg above rfl amounts
  · exact bill_nonneg base rfl amounts
  · refine add_nonneg (bill_nonneg base rfl ?_) (bill_nonneg above rfl ?_)
    · simp only [Amounts.below]
      omega
    · simp only [Amounts.excess]
      omega

theorem mem_of_resolve {model : String} (found : (resolve lower model pricing).1 = some entry) :
    ∃ key, (key, entry) ∈ pricing.entries := by
  have of_get {key : String} (listed : pricing.get? key = some entry) : ∃ key, (key, entry) ∈ pricing.entries := by
    obtain ⟨before, after, split, -⟩ := List.lookup_eq_some_iff.mp listed
    refine ⟨key, ?_⟩
    rw [split]
    exact List.mem_append_right _ (List.mem_cons_self ..)
  rw [resolve] at found
  cases exact_ : pricing.get? model with
  | some own =>
    rw [exact_] at found
    exact of_get (exact_.trans found)
  | none =>
    rw [exact_] at found
    cases prefixed : prefixCandidates.findSome? (fun head => pricing.get? (head ++ model)) with
    | some own =>
      obtain ⟨head, -, listed⟩ := List.exists_of_findSome?_eq_some prefixed
      rw [prefixed] at found
      exact of_get (listed.trans found)
    | none =>
      rw [prefixed] at found
      obtain ⟨pair, first, same⟩ := Option.map_eq_some_iff.mp found
      exact ⟨pair.1, same ▸ List.mem_of_find?_eq_some first⟩

theorem request_measure_nonneg {host : Host} (prices : pricing.Nonnegative)
    (counts : 0 ≤ row.inputTokens ∧ 0 ≤ row.outputTokens ∧ 0 ≤ row.cachedTokens) (metric : TrendMetric) :
    0 ≤ row.measure host pricing metric.measure := by
  obtain ⟨input, output, cached⟩ := counts
  cases metric with
  | cost =>
    change 0 ≤ requestCost host pricing row
    rw [requestCost, planFor]
    cases found : (resolve host.lower (modelKey row.model) pricing).1 with
    | none => exact le_rfl
    | some entry =>
      obtain ⟨key, listed⟩ := mem_of_resolve found
      exact plan_cost_nonneg (prices _ listed) ⟨input, output, cached⟩
  | inputTokens => exact Int.cast_nonneg input
  | outputTokens => exact Int.cast_nonneg output
  | cachedTokens => exact Int.cast_nonneg cached

end Costs

section Cells

variable {host : Host} {pricing : PricingMap} {table : Requests} {cells : List Cell}

theorem cell_measure_nonneg {window : Option Window} {filters : Filters} (prices : pricing.Nonnegative)
    (counts : table.Nonnegative) (fetched : (fetchCells host window filters pricing).run table = .ok cells) {c : Cell}
    (member : c ∈ cells) (metric : TrendMetric) : 0 ≤ c.measure metric.measure := by
  obtain ⟨group, grouped, lastUsed, -, rfl⟩ := mem_cells fetched member
  obtain ⟨-, members⟩ := cellGroups_members grouped
  rw [measure_summedCell]
  refine List.sum_nonneg fun amount listed => ?_
  obtain ⟨row, present, rfl⟩ := List.mem_map.mp listed
  exact request_measure_nonneg prices (counts row (members row present).1) metric

private theorem tally_nonneg {n : ℕ} {position : Cell → Option ℕ} {f : Cell → ℚ} (nonneg : ∀ c ∈ cells, 0 ≤ f c) :
    ∀ x ∈ cells.tally n position f, 0 ≤ x := by
  intro x listed
  obtain ⟨i, at_⟩ := List.mem_iff_getElem?.mp listed
  rw [List.getElem?_tally] at at_
  split_ifs at at_
  cases at_
  refine List.sum_nonneg fun amount listed => ?_
  obtain ⟨c, member, rfl⟩ := List.mem_map.mp listed
  rw [List.amountAt]
  split
  · exact nonneg c member
  · exact le_rfl

end Cells

namespace Frontend

/-- A response whose rows have requests, and whose mixes add up as its trends do. -/
structure Accounted (data : BreakdownResponse) : Prop extends Consistent data where
  used : ∀ r ∈ data.rows, 0 < r.current.requests
  mixed : ∀ r ∈ data.rows, ∀ m, (r.mix.map (·.amount m)).sum = r.current.measure m.measure
  mixed_nonneg : ∀ r ∈ data.rows, ∀ entry ∈ r.mix, ∀ m, 0 ≤ entry.amount m

section Served

variable {dim : Dimension} {aliases : List (String × String)} {hasPricing : Bool} {n : ℕ} {position : Cell → Option ℕ}
  {cells : List Cell} {previous : Option (List Cell)}

private theorem mix_amount_nonneg (priced : ∀ c ∈ cells, c.Priced hasPricing)
    (nonneg : ∀ c ∈ cells, ∀ metric : TrendMetric, 0 ≤ c.measure metric.measure) :
    ∀ entry ∈ (ranked (group (·.key dim) cells)).map (mixEntry dim aliases hasPricing), ∀ metric, 0 ≤ entry.amount metric := by
  intro entry listed metric
  obtain ⟨part, grouped, rfl⟩ := List.mem_map.mp listed
  obtain ⟨-, sums⟩ := List.mem_accumulate ((ranked_perm _).mem_iff.mp grouped)
  have own : ∀ c ∈ cells.filter (fun c => decide (c.key dim = part.1)), c ∈ cells := fun c => List.mem_of_mem_filter
  have amount : (mixEntry dim aliases hasPricing part).amount metric =
      (part.2.totals hasPricing).measure metric.measure := by cases metric <;> rfl
  rw [amount, sums, totals_measure fun c member => priced c (own c member)]
  refine List.sum_nonneg fun x shown => ?_
  obtain ⟨c, member, rfl⟩ := List.mem_map.mp shown
  exact nonneg c (own c member) metric

private theorem rows_accounted (priced : ∀ c ∈ cells, c.Priced hasPricing)
    (placed : ∀ c ∈ cells, ∃ i < n, position c = some i)
    (nonneg : ∀ c ∈ cells, ∀ metric : TrendMetric, 0 ≤ c.measure metric.measure) {bucket : Bucket}
    {starts : List LocalTime} (length : starts.length = n) :
    Accounted ⟨dim, bucket, starts, breakdownRows dim aliases hasPricing n position cells previous⟩ := by
  have agrees := @agrees_of_cells aliases dim hasPricing n position cells previous priced placed bucket starts none
  have tallied : ∀ r ∈ breakdownRows dim aliases hasPricing n position cells previous, ∀ metric,
      r.trend.values metric = (ofKey dim r.key cells).tally n position (·.measure metric.measure) := by
    intro r member metric
    rw [(mem_breakdownRows member).2.2.2.1, trend_values]
  refine ⟨⟨?_, ?_, agrees.trend⟩, ?_, agrees.mix, ?_⟩
  · intro r member metric
    rw [tallied r member, List.length_tally, length]
  · intro r member metric
    rw [tallied r member]
    exact tally_nonneg fun c present => nonneg c (mem_of_ofKey present) metric
  · intro r member
    obtain ⟨⟨c, present, key⟩, current, -⟩ := mem_breakdownRows member
    have own : ∀ c ∈ ofKey dim r.key cells, c.Priced hasPricing := fun c present => priced c (mem_of_ofKey present)
    have requests := totals_measure own .requests
    have positive : 0 < ((ofKey dim r.key cells).map (·.measure .requests)).sum := by
      refine List.sum_pos _ (fun x listed => ?_) (List.ne_nil_of_mem (List.mem_map_of_mem (mem_ofKey present key)))
      obtain ⟨other, member, rfl⟩ := List.mem_map.mp listed
      exact Int.cast_pos.mpr (own other member).requests_pos
    rw [← requests, ← current] at positive
    exact Int.cast_pos.mp positive
  · intro r member
    rw [(mem_breakdownRows member).2.2.2.2]
    refine mix_amount_nonneg ?_ ?_
    · exact fun c present => priced c (mem_of_ofKey present)
    · exact fun c present => nonneg c (mem_of_ofKey present)

end Served

section Peak

/-- The first position of the greatest value, unless no value is positive. -/
def IsPeak (values : List ℚ) : Option TrendPeak → Prop
  | none => ∀ x ∈ values, x ≤ 0
  | some peak => 0 < peak.value ∧ values[peak.index]? = some peak.value ∧ (∀ x ∈ values, x ≤ peak.value) ∧
    ∀ i < peak.index, ∀ x ∈ values[i]?, x < peak.value

variable {values : List ℚ} {best : Option TrendPeak} {v : ℚ}

private theorem isPeak_bound (peak : IsPeak values best) :
    0 ≤ (best.map TrendPeak.value).getD 0 ∧ ∀ x ∈ values, x ≤ (best.map TrendPeak.value).getD 0 := by
  cases best with
  | none => exact ⟨le_rfl, peak⟩
  | some top => exact ⟨peak.1.le, peak.2.2.1⟩

private theorem isPeak_concat (peak : IsPeak values best) :
    IsPeak (values ++ [v]) (if (best.map TrendPeak.value).getD 0 < v then some ⟨values.length, v⟩ else best) := by
  obtain ⟨nonneg, bound⟩ := isPeak_bound peak
  split_ifs with higher
  · refine ⟨nonneg.trans_lt higher, List.getElem?_concat_length, ?_, ?_⟩
    · intro x member
      rcases List.mem_append.mp member with before | last
      · exact (bound x before).trans higher.le
      · exact (List.mem_singleton.mp last).le
    · intro i inside x at_
      rw [List.getElem?_append_left inside] at at_
      exact (bound x (List.mem_of_getElem? at_)).trans_lt higher
  · have level : v ≤ (best.map TrendPeak.value).getD 0 := not_lt.mp higher
    have bound' : ∀ x ∈ values ++ [v], x ≤ (best.map TrendPeak.value).getD 0 := by
      intro x member
      rcases List.mem_append.mp member with before | last
      · exact bound x before
      · exact (List.mem_singleton.mp last).trans_le level
    cases best with
    | none => exact bound'
    | some top =>
      obtain ⟨positive, at_, -, first⟩ := peak
      have inside : top.index < values.length := (List.getElem?_eq_some_iff.mp at_).1
      refine ⟨positive, (List.getElem?_append_left inside).trans at_, bound', ?_⟩
      intro i earlier x shown
      rw [List.getElem?_append_left (earlier.trans inside)] at shown
      exact first i earlier x shown

private theorem isPeak_from {before : List ℚ} (peak : IsPeak before best) :
    IsPeak (before ++ values) (peakFrom before.length best values) := by
  induction values generalizing before best with
  | nil => simpa [peakFrom] using peak
  | cons v rest ih =>
    have next := ih (isPeak_concat (v := v) peak)
    rw [List.length_append, List.length_singleton, List.append_assoc, List.singleton_append] at next
    exact next

theorem isPeak_trendPeak (values : List ℚ) : IsPeak values (trendPeak values) := by
  have first : IsPeak [] none := fun _ member => absurd member List.not_mem_nil
  exact isPeak_from first

end Peak

section Parts

/-- The parts of a mix: its entries with a value, largest first, with the part of the total that each is. -/
structure PartsAccount (entries : List MixEntry) (metric : Metric) (total : ℚ) (parts : List MixPart) : Prop where
  entries : (parts.map MixPart.entry).Perm (entries.filter fun entry => 0 < MixEntry.value entry metric)
  own : ∀ p ∈ parts, p.value = MixEntry.value p.entry metric ∧ p.share * total = p.value
  order : parts.Pairwise fun a b => b.value ≤ a.value
  sum : (parts.map MixPart.value).sum = total

variable {entries : List MixEntry} {metric : Metric}

private theorem sum_filter_pos {α : Type} {f : α → ℚ} {items : List α} (nonneg : ∀ a ∈ items, 0 ≤ f a) :
    ((items.filter fun a => 0 < f a).map f).sum = (items.map f).sum := by
  induction items with
  | nil => rfl
  | cons a rest ih =>
    have later := ih fun b member => nonneg b (List.mem_cons_of_mem _ member)
    rw [List.filter_cons]
    split
    · rw [List.map_cons, List.sum_cons, List.map_cons, List.sum_cons, later]
    · next none_ =>
      have zero : f a = 0 := le_antisymm (not_lt.mp (by simpa using none_)) (nonneg a (List.mem_cons_self ..))
      rw [List.map_cons, List.sum_cons, later, zero, zero_add]

private theorem mixParts_account (nonneg : ∀ entry ∈ entries, 0 ≤ MixEntry.value entry metric) :
    PartsAccount entries metric (entries.map fun entry => MixEntry.value entry metric).sum (mixParts entries metric) := by
  have valued : ((entries.map fun entry => (entry, MixEntry.value entry metric)).filter fun p => decide (0 < p.2)) =
      (entries.filter fun entry => 0 < MixEntry.value entry metric).map
        fun entry => (entry, MixEntry.value entry metric) := List.filter_map
  have total : (((entries.filter fun entry => 0 < MixEntry.value entry metric).map
      fun entry => (entry, MixEntry.value entry metric)).map Prod.snd).sum =
        (entries.map fun entry => MixEntry.value entry metric).sum := by
    rw [List.map_map]
    exact sum_filter_pos nonneg
  rw [mixParts, valued, total]
  generalize (entries.map fun entry => MixEntry.value entry metric).sum = whole at total ⊢
  have perm := List.perm_insertionSort (fun a b : MixEntry × ℚ => b.2 ≤ a.2)
    ((entries.filter fun entry => 0 < MixEntry.value entry metric).map fun entry => (entry, MixEntry.value entry metric))
  have order := List.pairwise_insertionSort (fun a b : MixEntry × ℚ => b.2 ≤ a.2)
    ((entries.filter fun entry => 0 < MixEntry.value entry metric).map fun entry => (entry, MixEntry.value entry metric))
  generalize List.insertionSort (fun a b : MixEntry × ℚ => b.2 ≤ a.2) _ = sorted at perm order ⊢
  constructor
  · rw [List.map_map]
    refine (perm.map Prod.fst).trans ?_
    rw [List.map_map]
    exact .of_eq (List.map_id _)
  · intro p listed
    obtain ⟨pair, member, rfl⟩ := List.mem_map.mp listed
    obtain ⟨entry, kept, rfl⟩ := List.mem_map.mp (perm.mem_iff.mp member)
    have positive : 0 < MixEntry.value entry metric := of_decide_eq_true (List.mem_filter.mp kept).2
    have below : MixEntry.value entry metric ≤ whole := by
      rw [← total, List.map_map]
      refine List.single_le_sum (fun value shown => ?_) _ (List.mem_map.mpr ⟨entry, kept, rfl⟩)
      obtain ⟨other, present, rfl⟩ := List.mem_map.mp shown
      exact (of_decide_eq_true (List.mem_filter.mp present).2 : 0 < MixEntry.value other metric).le
    exact ⟨rfl, div_mul_cancel₀ _ (positive.trans_le below).ne'⟩
  · exact List.pairwise_map.mpr order
  · rw [List.map_map, ← total]
    exact (perm.map Prod.snd).sum_eq

end Parts

/-- What the table shows of a row of a breakdown. -/
structure RowAccount (data : BreakdownResponse) (metric : Metric) (r : BreakdownRow) (row : RichRow) : Prop where
  same : row.key = r.key ∧ row.totals = r.current
  share : 0 ≤ row.share ∧
    row.share * (data.rows.map fun r => metricValue r.current metric).sum = metricValue r.current metric
  trend : row.trend.length = data.buckets.length ∧ row.trend.sum = metricValue r.current metric
  peak : IsPeak row.trend row.peak ∧ (row.peak = none ↔ metricValue r.current metric = 0)
  parts : PartsAccount r.mix metric (metricValue r.current metric) row.parts

/-- What the table shows of a breakdown. -/
structure TableAccount (data : BreakdownResponse) (metric : Metric) : Prop where
  rows : List.Forall₂ (RowAccount data metric) data.rows (buildRichRows data.rows data.dim metric)
  shares : (∃ r ∈ data.rows, 0 < metricValue r.current metric) →
    ((buildRichRows data.rows data.dim metric).map RichRow.share).sum = 1

section Table

variable {data : BreakdownResponse} {metric : Metric}

private theorem mix_value (accounted : Accounted data) {r : BreakdownRow} (member : r ∈ data.rows) :
    (∀ entry ∈ r.mix, 0 ≤ MixEntry.value entry metric) ∧
      (r.mix.map fun entry => MixEntry.value entry metric).sum = metricValue r.current metric := by
  cases metric with
  | cost => exact ⟨fun entry listed => accounted.mixed_nonneg r member entry listed .cost, accounted.mixed r member .cost⟩
  | tokens =>
    constructor
    · intro entry listed
      exact add_nonneg (accounted.mixed_nonneg r member entry listed .inputTokens)
        (accounted.mixed_nonneg r member entry listed .outputTokens)
    · have input := accounted.mixed r member .inputTokens
      have output := accounted.mixed r member .outputTokens
      exact List.sum_map_add.trans (congrArg₂ (· + ·) input output)

private theorem kept_rows (accounted : Accounted data) :
    (data.rows.filter fun r => 0 < r.current.requests ∨ 0 < metricValue r.current metric) = data.rows :=
  List.filter_eq_self.mpr fun r member => decide_eq_true (.inl (accounted.used r member))

private theorem peak_eq_none (consistent : Consistent data) {r : BreakdownRow} (member : r ∈ data.rows) :
    trendPeak (metricSeries r.trend metric) = none ↔ metricValue r.current metric = 0 := by
  have peak := isPeak_trendPeak (metricSeries r.trend metric)
  have nonneg : ∀ x ∈ metricSeries r.trend metric, 0 ≤ x := series_nonneg consistent member
  rw [← series_sum consistent member]
  constructor
  · intro none_
    rw [none_] at peak
    exact List.sum_eq_zero fun x listed => le_antisymm (peak x listed) (nonneg x listed)
  · intro zero
    cases top : trendPeak (metricSeries r.trend metric) with
    | none => rfl
    | some best =>
      rw [top] at peak
      have below := List.single_le_sum nonneg _ (List.mem_of_getElem? peak.2.1)
      exact absurd (peak.1.trans_le below) (not_lt.mpr zero.le)

theorem table_account (accounted : Accounted data) : TableAccount data metric := by
  have consistent := accounted.toConsistent
  have values : ∀ r ∈ data.rows, 0 ≤ metricValue r.current metric := fun r member => value_nonneg consistent member
  have below : ∀ r ∈ data.rows, metricValue r.current metric ≤ (data.rows.map fun r => metricValue r.current metric).sum := by
    intro r member
    refine List.single_le_sum (fun value shown => ?_) _ (List.mem_map.mpr ⟨r, member, rfl⟩)
    obtain ⟨other, present, rfl⟩ := List.mem_map.mp shown
    exact values other present
  constructor
  · rw [buildRichRows, kept_rows accounted]
    dsimp only
    rw [List.forall₂_map_right_iff, List.forall₂_same]
    intro r member
    have part := below r member
    constructor
    · exact ⟨rfl, rfl⟩
    · dsimp only
      split_ifs with positive
      · exact ⟨div_nonneg (values r member) positive.le, div_mul_cancel₀ _ positive.ne'⟩
      · rw [zero_mul]
        exact ⟨le_rfl, le_antisymm (values r member) (part.trans (not_lt.mp positive))⟩
    · exact ⟨series_length consistent member, series_sum consistent member⟩
    · exact ⟨isPeak_trendPeak _, peak_eq_none consistent member⟩
    · obtain ⟨nonneg, sum⟩ := @mix_value data metric accounted r member
      exact sum ▸ mixParts_account nonneg
  · rintro ⟨r, member, positive⟩
    have total := positive.trans_le (below r member)
    rw [buildRichRows, kept_rows accounted, List.map_map]
    have share : ∀ r ∈ data.rows, (if 0 < (data.rows.map fun r => metricValue r.current metric).sum
        then metricValue r.current metric / (data.rows.map fun r => metricValue r.current metric).sum else 0) =
          metricValue r.current metric * (data.rows.map fun r => metricValue r.current metric).sum⁻¹ := by
      intro r _
      rw [if_pos total, div_eq_mul_inv]
    refine (congrArg List.sum (List.map_congr_left share)).trans ?_
    rw [List.sum_map_mul_right]
    exact mul_inv_cancel₀ total.ne'

end Table

/-- The table of a served breakdown accounts for it, as do the charts. -/
theorem served_rows_account {host : Host} {dim : Dimension} {window : Window} {requested : Option Bucket} {tz : Zone}
    {filters : Filters} {pricing : PricingMap} {aliases : List (String × String)} {table : Requests}
    {data : BreakdownResponse} (stamped : table.Stamped window) (noSkip : tz.NoHourSkipped)
    (divide : tz.OffsetsDivide (sliceSeconds * microsPerSecond)) (prices : pricing.Nonnegative)
    (counts : table.Nonnegative)
    (served : (queryBreakdown host dim window requested tz filters pricing aliases).run table = .ok data) :
    Consistent data ∧ ∀ metric, TableAccount data metric := by
  obtain ⟨ax, axed, cells, fetched, previous, -, rfl⟩ := run_queryBreakdown_ok_iff.mp served
  have accounted := @rows_accounted dim aliases pricing.nonEmpty ax.starts.length ax.position cells previous
    (fun c member => priced_of_mem fetched member) (position_of_cell stamped.selects noSkip divide axed fetched)
    (fun c member metric => cell_measure_nonneg prices counts fetched member metric) ax.bucket ax.starts rfl
  exact ⟨accounted.toConsistent, fun metric => table_account accounted⟩

/-- Two requests of a priced model, one of them by a second person. -/
def servedTable : Requests :=
  ⟨[stampedRow "2024-01-02T12:00:00Z" "m" 100, { stampedRow "2024-01-02T12:00:01Z" "m" 300 with apiKey := "sk-b-0002" }],
    by decide⟩

def servedBreakdown : BreakdownResponse where
  dim := .model
  bucket := .day
  buckets := [⟨1704153600000000, false⟩]
  rows :=
    [⟨"m", "m", ⟨2, 0, 400, 20, 0, 0, some (2 / 5), .live, 1200, some 1704196801000000⟩, none,
        ⟨[2 / 5], [400], [20], [0]⟩, [⟨"sk-*******-0002", "sk-*******-0002", some (3 / 10), 300, 10, 0⟩,
        ⟨"sk-*******-0001", "team", some (1 / 10), 100, 10, 0⟩], some ⟨⟨1000, 0, 100, 1250⟩, none, false⟩⟩]

theorem served_rows_account_mixed :
    (buildRichRows servedBreakdown.rows .model .cost).map (fun row => row.parts.map MixPart.share) = [[3 / 4, 1 / 4]] ∧
      Consistent servedBreakdown ∧ ∀ metric, TableAccount servedBreakdown metric := by
  have stamped : servedTable.Stamped untilThird := by
    intro row stored
    rcases List.mem_pair.mp stored with rfl | rfl
    · exact ⟨⟨2024, 1, 2, 12, 0, 0, [], none, by decide, by decide, by decide⟩, by decide, by decide, fun _ => by decide⟩
    · exact ⟨⟨2024, 1, 2, 12, 0, 1, [], none, by decide, by decide, by decide⟩, by decide, by decide, fun _ => by decide⟩
  have served : (queryBreakdown .utc .model untilThird (some .day) .utc {} pricedModel
      [("sk-*******-0001", "team")]).run servedTable = .ok servedBreakdown := by decide +kernel
  have noSkip : Zone.utc.NoHourSkipped := trivial
  have divide : Zone.utc.OffsetsDivide (sliceSeconds * microsPerSecond) :=
    ⟨dvd_zero _, fun t member => absurd member List.not_mem_nil⟩
  have prices : pricedModel.Nonnegative := by
    intro entry listed
    rw [List.mem_singleton.mp listed]
    constructor <;> decide +kernel
  have counts : servedTable.Nonnegative := by
    intro row stored
    rcases List.mem_pair.mp stored with rfl | rfl <;> decide
  exact ⟨by decide +kernel, served_rows_account stamped noSkip divide prices counts served⟩

end Frontend

end CliproxyUsage
