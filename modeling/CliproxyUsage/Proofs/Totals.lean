import CliproxyUsage.Proofs.Usage
import CliproxyUsage.ToMathlib.ListTally
import Mathlib.Algebra.BigOperators.Ring.Finset
import Mathlib.Tactic.FieldSimp

/-! # Sums of cells in every view

Totals, breakdown rows, mixes and series all add up measures of the same cells. A null cost counts
as zero, which is what its cells cost.
-/

namespace CliproxyUsage

open Python Machine

variable {host : Host} {pricing : PricingMap}

/-- What adds up over requests: the fields of totals, with the latency of all requests for its average. -/
inductive Measure where
  | requests
  | failed
  | inputTokens
  | outputTokens
  | cachedTokens
  | reasoningTokens
  | latency
  | cost
deriving DecidableEq, Repr

def Cell.measure (c : Cell) : Measure → ℚ
  | .requests => c.requests
  | .failed => c.failed
  | .inputTokens => c.inputTokens
  | .outputTokens => c.outputTokens
  | .cachedTokens => c.cachedTokens
  | .reasoningTokens => c.reasoningTokens
  | .latency => c.latencySum
  | .cost => c.cost

def Acc.measure (acc : Acc) : Measure → ℚ
  | .requests => acc.requests
  | .failed => acc.failed
  | .inputTokens => acc.inputTokens
  | .outputTokens => acc.outputTokens
  | .cachedTokens => acc.cachedTokens
  | .reasoningTokens => acc.reasoningTokens
  | .latency => acc.latencySum
  | .cost => acc.cost

/-- The measures of totals; a null cost counts as zero. -/
def Totals.measure (totals : Totals) : Measure → ℚ
  | .requests => totals.requests
  | .failed => totals.failed
  | .inputTokens => totals.inputTokens
  | .outputTokens => totals.outputTokens
  | .cachedTokens => totals.cachedTokens
  | .reasoningTokens => totals.reasoningTokens
  | .latency => totals.avgLatencyMs * totals.requests
  | .cost => totals.cost.getD 0

/-- The measures that trends and mixes show. -/
inductive TrendMetric where
  | cost
  | inputTokens
  | outputTokens
  | cachedTokens
deriving DecidableEq, Repr

def TrendMetric.measure : TrendMetric → Measure
  | .cost => .cost
  | .inputTokens => .inputTokens
  | .outputTokens => .outputTokens
  | .cachedTokens => .cachedTokens

def Trend.values (trend : Trend) : TrendMetric → List ℚ
  | .cost => trend.cost
  | .inputTokens => trend.inputTokens
  | .outputTokens => trend.outputTokens
  | .cachedTokens => trend.cachedTokens

def MixEntry.amount (entry : MixEntry) : TrendMetric → ℚ
  | .cost => entry.cost.getD 0
  | .inputTokens => entry.inputTokens
  | .outputTokens => entry.outputTokens
  | .cachedTokens => entry.cachedTokens

/-- What holds of every cell of a query: it has requests, costs nothing without a price, and has no
price where no model has one. -/
structure Cell.Priced (hasPricing : Bool) (c : Cell) : Prop where
  requests_pos : 0 < c.requests
  unpriced : c.status = .missing → c.cost = 0
  noPricing : hasPricing = false → c.status = .missing

theorem resolve_missing {model : String} :
    (resolve host.lower model pricing).2 = .missing ↔ (resolve host.lower model pricing).1 = none := by
  rw [resolve]
  dsimp only
  split
  · next found => exact iff_of_false nofun (Option.isSome_iff_ne_none.mp found)
  · next absent => exact iff_of_true rfl (by simpa using absent)

private theorem resolve_empty {model : String} (empty : pricing.nonEmpty = false) :
    (resolve host.lower model pricing).2 = .missing := by
  have entries : pricing.entries = [] := by simpa [PricingMap.nonEmpty] using empty
  simp [resolve, PricingMap.get?, entries]

/-- The cells of a query are priced. -/
theorem priced_of_mem {window : Option Window} {filters : Filters} {table : Requests} {cells : List Cell}
    (fetched : (fetchCells host window filters pricing).run table = .ok cells) {c : Cell} (member : c ∈ cells) :
    c.Priced pricing.nonEmpty := by
  obtain ⟨group, grouped, lastUsed, _, rfl⟩ := mem_cells fetched member
  obtain ⟨some_, members⟩ := cellGroups_members grouped
  constructor
  · have length := List.length_pos_iff.mpr some_
    simp only [summedCell]
    omega
  · intro missing
    have none_ := resolve_missing.mp missing
    refine List.sum_eq_zero fun cost listed => ?_
    obtain ⟨row, present, rfl⟩ := List.mem_map.mp listed
    have model : row.model = group.1.model := by
      rw [← (members row present).2.2]
      rfl
    rw [requestCost, planFor, model, none_]
    rfl
  · exact resolve_empty

section Requests

/-- What a request adds to each measure. -/
def RequestRow.measure (host : Host) (pricing : PricingMap) (row : RequestRow) : Measure → ℚ
  | .requests => 1
  | .failed => row.failed
  | .inputTokens => row.inputTokens
  | .outputTokens => row.outputTokens
  | .cachedTokens => row.cachedTokens
  | .reasoningTokens => row.reasoningTokens
  | .latency => row.latencyMs
  | .cost => requestCost host pricing row

private theorem cast_sum (f : RequestRow → ℤ) (rows : List RequestRow) :
    (((rows.map f).sum : ℤ) : ℚ) = (rows.map fun row => (f row : ℚ)).sum := by
  rw [Int.cast_list_sum, List.map_map]
  rfl

theorem measure_summedCell (group : CellKey × List RequestRow) (lastUsed : ℤ) (m : Measure) :
    (summedCell host pricing group lastUsed).measure m = (group.2.map (·.measure host pricing m)).sum := by
  cases m with
  | requests => simp [summedCell, Cell.measure, RequestRow.measure]
  | cost => rfl
  | _ => exact cast_sum _ _

/-- The cells of a query add up what its counted requests add to each measure. -/
theorem sum_cells {window : Option Window} {filters : Filters} {table : Requests} {cells : List Cell}
    (fetched : (fetchCells host window filters pricing).run table = .ok cells) (m : Measure) :
    (cells.map (·.measure m)).sum =
      ((table.rows.filter (counted window filters)).map (·.measure host pricing m)).sum := by
  rw [← List.sum_groupOn RequestRow.cellKey]
  refine congrArg List.sum (List.map_of_mapM_ok (run_fetchCells_ok_iff.mp fetched).2 ?_)
  intro group grouped cell built
  obtain ⟨lastUsed, _, rfl⟩ := cellOf_ok (model_of_cellGroups grouped) built
  exact measure_summedCell group lastUsed m

end Requests

section Acc

/-- Running sums add up each measure. -/
private theorem measure_foldl_add (m : Measure) (acc : Acc) (cells : List Cell) :
    (cells.foldl Acc.add acc).measure m = acc.measure m + (cells.map (·.measure m)).sum := by
  induction cells generalizing acc with
  | nil => simp
  | cons c rest ih =>
    have step : (acc.add c).measure m = acc.measure m + c.measure m := by
      cases m <;> simp [Acc.measure, Acc.add, Cell.measure]
    rw [List.foldl_cons, ih, step, List.map_cons, List.sum_cons, add_assoc]

theorem measure_foldl (m : Measure) (cells : List Cell) :
    (cells.foldl Acc.add {}).measure m = (cells.map (·.measure m)).sum := by
  rw [measure_foldl_add]
  cases m <;> simp [Acc.measure]

theorem mem_statuses_foldl {status : PricingResolution} {cells : List Cell} :
    status ∈ (cells.foldl Acc.add {}).statuses ↔ ∃ c ∈ cells, c.status = status := by
  induction cells using List.reverseRecOn with
  | nil => simp
  | append_singleton rest c ih =>
    rw [List.foldl_append, List.foldl_cons, List.foldl_nil]
    simp only [Acc.add, Finset.mem_insert, ih, List.mem_append, List.mem_singleton]
    constructor
    · rintro (rfl | ⟨other, member, rfl⟩)
      · exact ⟨c, .inr rfl, rfl⟩
      · exact ⟨other, .inl member, rfl⟩
    · rintro ⟨other, member | rfl, rfl⟩
      · exact .inr ⟨other, member, rfl⟩
      · exact .inl rfl

theorem costStatus_live {hasPricing : Bool} {cells : List Cell} :
    (cells.foldl Acc.add {}).costStatus hasPricing = .live ↔ hasPricing = true ∧ ∀ c ∈ cells, c.status = .live := by
  rw [Acc.costStatus]
  cases hasPricing with
  | false => simp
  | true =>
    simp only [if_true, true_and, rollupCostStatus]
    constructor
    · intro live c member
      cases status : c.status with
      | live => rfl
      | missing =>
        rw [if_neg (not_not.mpr (mem_statuses_foldl.mpr ⟨c, member, status⟩))] at live
        split at live <;> cases live
    · intro live
      refine if_pos fun missing => ?_
      obtain ⟨c, member, status⟩ := mem_statuses_foldl.mp missing
      rw [live c member] at status
      cases status

/-- No cell of a null cost has a price. -/
theorem status_of_costStatus {hasPricing : Bool} {cells : List Cell} (priced : ∀ c ∈ cells, c.Priced hasPricing)
    (missing : (cells.foldl Acc.add {}).costStatus hasPricing = .missing) : ∀ c ∈ cells, c.status = .missing := by
  intro c member
  rw [Acc.costStatus] at missing
  split at missing
  · rw [rollupCostStatus] at missing
    split_ifs at missing with _ live
    cases status : c.status with
    | missing => rfl
    | live => exact absurd (mem_statuses_foldl.mpr ⟨c, member, status⟩) live
  · next none_ => exact (priced c member).noPricing (by simpa using none_)

/-- Some cells without a price, and no others, have a null cost. -/
theorem costStatus_missing {hasPricing : Bool} {cells : List Cell} {c : Cell} (member : c ∈ cells)
    (missing : ∀ c ∈ cells, c.status = .missing) : (cells.foldl Acc.add {}).costStatus hasPricing = .missing := by
  rw [Acc.costStatus]
  split
  · rw [rollupCostStatus, if_neg (not_not.mpr (mem_statuses_foldl.mpr ⟨c, member, missing c member⟩)), if_neg]
    intro live
    obtain ⟨other, also, status⟩ := mem_statuses_foldl.mp live
    rw [missing other also] at status
    cases status
  · rfl

theorem cost_eq_none {hasPricing : Bool} (acc : Acc) :
    (acc.totals hasPricing).cost = none ↔ (acc.totals hasPricing).costStatus = .missing := by
  simp only [Acc.totals, Acc.costValue]
  split <;> simp [*]

/-- Totals show the sums of their cells. -/
theorem totals_measure {hasPricing : Bool} {cells : List Cell} (priced : ∀ c ∈ cells, c.Priced hasPricing) (m : Measure) :
    ((cells.foldl Acc.add {}).totals hasPricing).measure m = (cells.map (·.measure m)).sum := by
  rw [← measure_foldl]
  cases m with
  | latency =>
    simp only [Totals.measure, Acc.totals, Acc.measure]
    split
    · next zero =>
      -- No requests: no cells, so no latency either.
      cases cells with
      | nil => simp
      | cons c rest =>
        have total := measure_foldl .requests (c :: rest)
        have positive : 0 < ((c :: rest).map (·.measure .requests)).sum := by
          refine List.sum_pos _ (fun x listed => ?_) (by simp)
          obtain ⟨other, member, rfl⟩ := List.mem_map.mp listed
          exact Int.cast_pos.mpr (priced other member).requests_pos
        rw [← total, Acc.measure, zero] at positive
        simp at positive
    · next some_ =>
      have some_ : ((cells.foldl Acc.add {}).requests : ℚ) ≠ 0 := by exact_mod_cast some_
      field_simp
  | cost =>
    simp only [Totals.measure, Acc.totals, Acc.costValue]
    split
    · next missing =>
      rw [measure_foldl]
      refine (List.sum_eq_zero fun cost listed => ?_).symm
      obtain ⟨c, member, rfl⟩ := List.mem_map.mp listed
      exact (priced c member).unpriced (status_of_costStatus priced missing c member)
    · rfl
  | _ => rfl

end Acc

section Groups

/-- What is additive in the cells adds up over the groups of any key. -/
private theorem sum_ranked_group {M : Type} [AddCommMonoid M] (key : Cell → String) (cells : List Cell) (f : Cell → M)
    (value : String × Acc → M)
    (additive : ∀ k, value (k, (cells.filter fun c => decide (key c = k)).foldl Acc.add {}) =
      ((cells.filter fun c => decide (key c = k)).map f).sum) :
    ((ranked (group key cells)).map value).sum = (cells.map f).sum := by
  rw [((ranked_perm _).map value).sum_eq, group, List.accumulate_eq_groupOn, List.map_map, ← List.sum_groupOn key]
  refine congrArg List.sum (List.map_congr_left fun part listed => ?_)
  obtain ⟨_, members⟩ := List.mem_groupOn.mp listed
  rw [Function.comp_apply, members]
  exact additive part.1

variable {dim : Dimension} {aliases : List (String × String)} {hasPricing : Bool} {n : ℕ}
  {position : Cell → Option ℕ} {cells : List Cell} {previous : Option (List Cell)}

/-- What is additive in the cells of an entity adds up over the rows of a breakdown. -/
theorem sum_breakdownRows {M : Type} [AddCommMonoid M] (f : Cell → M) :
    ((breakdownRows dim aliases hasPricing n position cells previous).map fun row =>
        ((ofKey dim row.key cells).map f).sum).sum = (cells.map f).sum := by
  rw [breakdownRows, List.map_map]
  exact sum_ranked_group (·.key dim) cells f (fun entry => ((ofKey dim entry.1 cells).map f).sum) fun k => rfl

/-- Every cell belongs to a row. -/
theorem exists_row {c : Cell} (member : c ∈ cells) :
    ∃ row ∈ breakdownRows dim aliases hasPricing n position cells previous, row.key = c.key dim := by
  have known := (@mem_group_keys (·.key dim) cells _).mpr ⟨c, member, rfl⟩
  obtain ⟨entry, grouped, same⟩ := List.mem_map.mp known
  exact ⟨_, List.mem_map.mpr ⟨entry, (ranked_perm _).mem_iff.mpr grouped, rfl⟩, same⟩

/-- The entries of a mix sum to the cells they are made of. -/
theorem sum_mix (priced : ∀ c ∈ cells, c.Priced hasPricing) (metric : TrendMetric) :
    (((ranked (group (·.key dim) cells)).map (mixEntry dim aliases hasPricing)).map (·.amount metric)).sum =
      (cells.map (·.measure metric.measure)).sum := by
  rw [List.map_map]
  refine sum_ranked_group (·.key dim) cells _ _ fun k => ?_
  have own : ∀ c ∈ ofKey dim k cells, c.Priced hasPricing := fun c member => priced c (List.mem_of_mem_filter member)
  refine Eq.trans ?_ (totals_measure own metric.measure)
  cases metric <;> rfl

end Groups

section Trends

variable {n : ℕ} {position : Cell → Option ℕ}

/-- A trend tallies each of its measures. -/
theorem trend_values (cells : List Cell) (metric : TrendMetric) :
    (cells.foldl (Trend.add position) (Trend.zero n)).values metric =
      cells.tally n position (·.measure metric.measure) := by
  have zero : (Trend.zero n).values metric = List.replicate n 0 := by cases metric <;> rfl
  rw [List.tally, ← zero]
  refine (List.foldl_hom (Trend.values · metric) fun trend c => ?_).symm
  rw [List.addAt, Trend.add]
  cases position c <;> cases metric <;> rfl

theorem series_requests (cells : List Cell) :
    (cells.foldl (Series.add position) (Series.zero n)).requests = cells.tally n position (·.measure .requests) := by
  rw [List.tally]
  refine (List.foldl_hom Series.requests fun series c => ?_).symm
  rw [List.addAt, Series.add]
  cases position c <;> rfl

/-- A series without its request counts is the trend of its cells. -/
theorem toTrend_foldl_add (series : Series) (cells : List Cell) :
    (cells.foldl (Series.add position) series).toTrend = cells.foldl (Trend.add position) series.toTrend := by
  refine (List.foldl_hom Series.toTrend fun series c => ?_).symm
  rw [Series.add, Trend.add]
  cases position c <;> simp [*]

end Trends

end CliproxyUsage
