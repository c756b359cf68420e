import CliproxyUsage.Proofs.Totals

/-! # Cells that no response tells apart

A response shows its cells through their slices, display keys and sums. Two lists of cells with the same
labels, and the same sums over any set of labels, give the same response up to the times of the last uses,
however their cells are split and ordered.
-/

namespace CliproxyUsage

open Python Machine

/-- What a response may show of a cell besides its sums. -/
structure CellLabel where
  sliceNo : Option ℤ
  person : String
  model : String
  credential : String
deriving DecidableEq, Repr

def Cell.label (c : Cell) : CellLabel := ⟨c.sliceNo, c.person, c.model, c.credential⟩

def CellLabel.key (label : CellLabel) : Dimension → String
  | .person => label.person
  | .model => label.model
  | .credential => label.credential

@[simp] theorem key_label (c : Cell) (dim : Dimension) : c.label.key dim = c.key dim := by cases dim <;> rfl

/-- The status and the plan of a cell are those of its model. -/
def Cell.Resolved (host : Host) (pricing : PricingMap) (c : Cell) : Prop :=
  c.status = (resolve host.lower c.model pricing).2 ∧
    c.plan = (resolve host.lower c.model pricing).1.map (costPlan host.lower)

/-- The label of the cell of a row. -/
def CellKey.label (key : CellKey) : CellLabel :=
  ⟨key.sliceNo, redactKey key.apiKey, modelKey key.model, redactSource key.source⟩

section Fetched

variable {host : Host} {pricing : PricingMap} {window : Option Window} {filters : Filters} {table : Requests}
  {cells : List Cell}

theorem labels_cells (fetched : (fetchCells host window filters pricing).run table = .ok cells) :
    cells.map Cell.label = (cellGroups window filters table).map fun group => group.1.label := by
  apply List.map_of_mapM_ok (run_fetchCells_ok_iff.mp fetched).2
  intro group grouped cell built
  obtain ⟨lastUsed, _, rfl⟩ := cellOf_ok (model_of_cellGroups grouped) built
  rfl

/-- The labels of the cells are those of the counted rows. -/
theorem exists_label_iff (fetched : (fetchCells host window filters pricing).run table = .ok cells)
    (label : CellLabel) : (∃ c ∈ cells, c.label = label) ↔
      ∃ row ∈ table.rows.filter (counted window filters), row.cellKey.label = label := by
  have listed : label ∈ cells.map Cell.label ↔
      label ∈ ((cellGroups window filters table).map Prod.fst).map CellKey.label := by
    rw [labels_cells fetched, List.map_map]
    rfl
  rw [cellGroups, List.groupOn_keys] at listed
  simpa using listed

/-- The sums over some labels are those of their counted rows. -/
theorem sum_cells_filter (fetched : (fetchCells host window filters pricing).run table = .ok cells)
    (keep : CellLabel → Bool) (m : Measure) :
    ((cells.filter fun c => keep c.label).map (·.measure m)).sum =
      (((table.rows.filter (counted window filters)).filter fun row => keep row.cellKey.label).map
        (·.measure host pricing m)).sum := by
  have kept : ((cellGroups window filters table).filter fun group => keep group.1.label).mapM (cellOf host pricing) =
      .ok (cells.filter fun c => keep c.label) := by
    refine List.mapM_filter_ok (fun group grouped cell built => ?_) (run_fetchCells_ok_iff.mp fetched).2
    obtain ⟨lastUsed, _, rfl⟩ := cellOf_ok (model_of_cellGroups grouped) built
    rfl
  have regrouped := List.groupOn_filter RequestRow.cellKey (table.rows.filter (counted window filters))
    fun key => keep key.label
  rw [← List.sum_groupOn RequestRow.cellKey, regrouped]
  refine congrArg List.sum (List.map_of_mapM_ok kept ?_)
  intro group grouped cell built
  obtain ⟨lastUsed, _, rfl⟩ := cellOf_ok (model_of_cellGroups (List.mem_of_mem_filter grouped)) built
  exact measure_summedCell group lastUsed m

theorem resolved_of_mem (fetched : (fetchCells host window filters pricing).run table = .ok cells) {c : Cell}
    (member : c ∈ cells) : c.Resolved host pricing := by
  obtain ⟨group, _, _, _, rfl⟩ := mem_cells fetched member
  exact ⟨rfl, rfl⟩

end Fetched

/-- The plan that the cells of a model leave behind is the model's, for every one of them carries it. -/
theorem lookup_plan {host : Host} {pricing : PricingMap} {cells : List Cell}
    (resolved : ∀ c ∈ cells, c.Resolved host pricing) (model : String) :
    ((cells.accumulate Cell.model none fun _ c => c.plan).lookup model).getD none =
      if ofKey .model model cells = [] then none
      else (resolve host.lower model pricing).1.map (costPlan host.lower) := by
  have last (plan : Option CostPlan) (cells : List Cell) (own : ∀ c ∈ cells, c.plan = plan) (init : Option CostPlan) :
      cells.foldl (fun _ c => c.plan) init = if cells = [] then init else plan := by
    induction cells generalizing init with
    | nil => rfl
    | cons c rest ih =>
      have later := ih fun other member => own other (List.mem_cons_of_mem _ member)
      rw [List.foldl_cons, later, own c (List.mem_cons_self ..)]
      split <;> rfl
  rw [List.lookup_accumulate]
  apply last
  intro c member
  obtain ⟨present, own⟩ := List.mem_filter.mp member
  rw [(resolved c present).2, of_decide_eq_true own]

structure SameCells (host : Host) (pricing : PricingMap) (first second : List Cell) : Prop where
  labels : ∀ label, (∃ c ∈ first, c.label = label) ↔ ∃ c ∈ second, c.label = label
  sums : ∀ (keep : CellLabel → Bool) m,
    ((first.filter fun c => keep c.label).map (·.measure m)).sum =
      ((second.filter fun c => keep c.label).map (·.measure m)).sum
  resolved : ∀ c, c ∈ first ∨ c ∈ second → c.Resolved host pricing

def Acc.withoutLastUsed (acc : Acc) : Acc := { acc with lastUsed := none }

def Totals.withoutLastUsed (totals : Totals) : Totals := { totals with lastUsed := none }

theorem totals_withoutLastUsed (acc : Acc) (hasPricing : Bool) :
    (acc.totals hasPricing).withoutLastUsed = acc.withoutLastUsed.totals hasPricing := rfl

def BreakdownRow.withoutLastUsed (row : BreakdownRow) : BreakdownRow :=
  { row with current := row.current.withoutLastUsed, previous := row.previous.map Totals.withoutLastUsed }

/-- The row of one entity from the cells of its key, without the last uses. -/
def entityRow (dim : Dimension) (aliases : List (String × String)) (hasPricing : Bool) (n : ℕ)
    (position : Cell → Option ℕ) (cells : List Cell) (previous : Option (List Cell)) (key : String) : BreakdownRow where
  key
  label := label dim aliases key
  current := (((ofKey dim key cells).foldl Acc.add {}).totals hasPricing).withoutLastUsed
  previous := previous.map fun before => (((ofKey dim key before).foldl Acc.add {}).totals hasPricing).withoutLastUsed
  trend := (ofKey dim key cells).foldl (Trend.add position) (Trend.zero n)
  mix := (ranked (group (·.key (mixDim dim)) (ofKey dim key cells))).map (mixEntry (mixDim dim) aliases hasPricing)
  price := if dim = .model then modelPrice (((cells.accumulate Cell.model none fun _ c => c.plan).lookup key).getD none)
    else none

/-- The rows of a breakdown, in the order of their ranks. -/
theorem breakdownRows_withoutLastUsed (dim : Dimension) (aliases : List (String × String)) (hasPricing : Bool) (n : ℕ)
    (position : Cell → Option ℕ) (cells : List Cell) (previous : Option (List Cell)) :
    (breakdownRows dim aliases hasPricing n position cells previous).map BreakdownRow.withoutLastUsed =
      ((ranked (group (·.key dim) cells)).map Prod.fst).map
        (entityRow dim aliases hasPricing n position cells previous) := by
  rw [breakdownRows, List.map_map, List.map_map]
  refine List.map_congr_left fun entry listed => ?_
  obtain ⟨_, current⟩ := List.mem_accumulate ((ranked_perm _).mem_iff.mp listed)
  simp only [Function.comp_apply, BreakdownRow.withoutLastUsed, entityRow, BreakdownRow.mk.injEq, true_and, current,
    List.lookup_accumulate, Option.map_map, group]
  refine ⟨rfl, ?_, rfl, rfl, trivial⟩
  cases previous with
  | none => rfl
  | some before =>
    simp only [Option.map_some, Function.comp_apply, group, List.lookup_accumulate]
    rfl

/-- An entry of a grouping without its last use. -/
def withoutLastUsed (entry : String × Acc) : String × Acc := (entry.1, entry.2.withoutLastUsed)

/-- The rank does not look at the last use. -/
theorem map_withoutLastUsed_ranked (groups : List (String × Acc)) :
    (ranked groups).map withoutLastUsed = ranked (groups.map withoutLastUsed) :=
  List.map_insertionSort _ _ _ _ fun _ _ _ _ => Iff.rfl

/-- A ranking depends on the groups only, not on their order: their keys break every tie. -/
theorem ranked_congr {groups others : List (String × Acc)} (perm : groups.Perm others)
    (unique : (groups.map Prod.fst).Nodup) : ranked groups = ranked others := by
  have total : Std.Total fun a b : String × Acc => a.2.rank a.1 ≤ b.2.rank b.1 := ⟨fun a b => le_total _ _⟩
  have trans : IsTrans (String × Acc) fun a b => a.2.rank a.1 ≤ b.2.rank b.1 := ⟨fun a b c => le_trans⟩
  have same : (ranked groups).Perm (ranked others) :=
    (ranked_perm groups).trans (perm.trans (ranked_perm others).symm)
  refine List.Perm.eq_of_pairwise ?_ (List.pairwise_insertionSort _ groups) (List.pairwise_insertionSort _ others) same
  intro a b member also upTo downTo
  have rank := le_antisymm upTo downTo
  have key : a.1 = b.1 := congrArg (fun r : ℚ ×ₗ ℤ ×ₗ String => (ofLex (ofLex r).2).2) rank
  exact List.inj_on_of_nodup_map unique ((ranked_perm _).mem_iff.mp member)
    (perm.mem_iff.mpr ((ranked_perm _).mem_iff.mp also)) key

private theorem trend_ext {a b : Trend} (values : ∀ metric, a.values metric = b.values metric) : a = b := by
  cases a
  cases b
  rw [Trend.mk.injEq]
  exact ⟨values .cost, values .inputTokens, values .outputTokens, values .cachedTokens⟩

private theorem series_ext {a b : Series} (trend : a.toTrend = b.toTrend) (requests : a.requests = b.requests) :
    a = b := by
  cases a
  cases b
  cases trend
  cases requests
  rfl

namespace SameCells

variable {host : Host} {pricing : PricingMap} {first second : List Cell}

theorem symm (same : SameCells host pricing first second) : SameCells host pricing second first where
  labels label := (same.labels label).symm
  sums keep m := (same.sums keep m).symm
  resolved c member := same.resolved c member.symm

/-- Cells that agree still agree on any set of labels. -/
theorem filter (same : SameCells host pricing first second) (keep : CellLabel → Bool) :
    SameCells host pricing (first.filter fun c => keep c.label) (second.filter fun c => keep c.label) where
  labels label := by
    have kept (cells : List Cell) : (∃ c ∈ cells.filter fun c => keep c.label, c.label = label) ↔
        keep label = true ∧ ∃ c ∈ cells, c.label = label := by
      constructor
      · rintro ⟨c, member, rfl⟩
        obtain ⟨present, passes⟩ := List.mem_filter.mp member
        exact ⟨passes, c, present, rfl⟩
      · rintro ⟨passes, c, present, rfl⟩
        exact ⟨c, List.mem_filter.mpr ⟨present, passes⟩, rfl⟩
    rw [kept, kept, same.labels]
  sums also m := by
    have both := same.sums (fun label => also label && keep label) m
    rwa [List.filter_filter, List.filter_filter]
  resolved c member := by
    apply same.resolved
    exact member.imp List.mem_of_mem_filter List.mem_of_mem_filter

theorem ofKey (same : SameCells host pricing first second) (dim : Dimension) (k : String) :
    SameCells host pricing (ofKey dim k first) (ofKey dim k second) := by
  have kept := same.filter fun label => decide (label.key dim = k)
  simp only [key_label] at kept
  exact kept

theorem sum (same : SameCells host pricing first second) (m : Measure) :
    (first.map (·.measure m)).sum = (second.map (·.measure m)).sum := by
  have whole := same.sums (fun _ => true) m
  rwa [List.filter_true, List.filter_true] at whole

theorem keys (same : SameCells host pricing first second) (dim : Dimension) (k : String) :
    (∃ c ∈ first, c.key dim = k) ↔ ∃ c ∈ second, c.key dim = k := by
  have shown (cells : List Cell) : (∃ c ∈ cells, c.key dim = k) ↔
      ∃ label, label.key dim = k ∧ ∃ c ∈ cells, c.label = label := by
    constructor
    · rintro ⟨c, member, rfl⟩
      exact ⟨c.label, key_label c dim, c, member, rfl⟩
    · rintro ⟨_, rfl, c, member, rfl⟩
      exact ⟨c, member, (key_label c dim).symm⟩
  simp only [shown, same.labels]

theorem statuses (same : SameCells host pricing first second) (status : PricingResolution) :
    (∃ c ∈ first, c.status = status) → ∃ c ∈ second, c.status = status := by
  rintro ⟨c, member, rfl⟩
  obtain ⟨other, also, label⟩ := (same.labels c.label).mp ⟨c, member, rfl⟩
  have model : other.model = c.model := congrArg CellLabel.model label
  refine ⟨other, also, ?_⟩
  rw [(same.resolved other (.inr also)).1, (same.resolved c (.inl member)).1, model]

/-- Running sums agree but for the last use. -/
theorem acc (same : SameCells host pricing first second) :
    (first.foldl Acc.add {}).withoutLastUsed = (second.foldl Acc.add {}).withoutLastUsed := by
  have measures (m : Measure) : (first.foldl Acc.add {}).measure m = (second.foldl Acc.add {}).measure m := by
    rw [measure_foldl, measure_foldl, same.sum]
  have statuses : (first.foldl Acc.add {}).statuses = (second.foldl Acc.add {}).statuses := by
    ext status
    rw [mem_statuses_foldl, mem_statuses_foldl]
    exact ⟨same.statuses status, same.symm.statuses status⟩
  have integer {a b : ℤ} (equal : (a : ℚ) = b) : a = b := Int.cast_injective equal
  simp only [Acc.withoutLastUsed, Acc.mk.injEq, statuses, and_true]
  exact ⟨integer (measures .requests), integer (measures .failed), integer (measures .inputTokens),
    integer (measures .outputTokens), integer (measures .cachedTokens), integer (measures .reasoningTokens),
    integer (measures .latency), measures .cost⟩

theorem totals (same : SameCells host pricing first second) (hasPricing : Bool) :
    ((first.foldl Acc.add {}).totals hasPricing).withoutLastUsed =
      ((second.foldl Acc.add {}).totals hasPricing).withoutLastUsed := by
  rw [totals_withoutLastUsed, totals_withoutLastUsed, same.acc]

/-- The groups of a dimension, without the last uses, are the same up to their order. -/
theorem group_perm (same : SameCells host pricing first second) (dim : Dimension) :
    ((group (·.key dim) first).map withoutLastUsed).Perm ((group (·.key dim) second).map withoutLastUsed) := by
  have groups (cells : List Cell) : (group (·.key dim) cells).map withoutLastUsed =
      (cells.map (·.key dim)).eraseDups.map fun k =>
        (k, ((CliproxyUsage.ofKey dim k cells).foldl Acc.add {}).withoutLastUsed) := by
    rw [group, List.accumulate_eq_groupOn, List.groupOn, List.map_map, List.map_map]
    rfl
  have keys : (first.map (·.key dim)).eraseDups.Perm (second.map (·.key dim)).eraseDups := by
    rw [List.perm_ext_iff_of_nodup (List.nodup_eraseDups _) (List.nodup_eraseDups _)]
    intro k
    simpa using same.keys dim k
  rw [groups, groups]
  refine (keys.map _).trans (List.Perm.of_eq (List.map_congr_left fun k _ => ?_))
  rw [(same.ofKey dim k).acc]

/-- The groups of a dimension rank alike. -/
theorem ranked (same : SameCells host pricing first second) (dim : Dimension) :
    (ranked (group (·.key dim) first)).map withoutLastUsed =
      (CliproxyUsage.ranked (group (·.key dim) second)).map withoutLastUsed := by
  rw [map_withoutLastUsed_ranked, map_withoutLastUsed_ranked]
  apply ranked_congr (same.group_perm dim)
  rw [List.map_map, group, List.accumulate_eq_groupOn, List.map_map]
  exact List.groupOn_keys_nodup _ _

/-- A measure tallies alike over positions that depend on the label. -/
theorem tally (same : SameCells host pricing first second) (n : ℕ) (place : CellLabel → Option ℕ) (m : Measure) :
    first.tally n (fun c => place c.label) (·.measure m) = second.tally n (fun c => place c.label) (·.measure m) := by
  have amounts (cells : List Cell) (i : ℕ) :
      (cells.map (List.amountAt (fun c => place c.label) (·.measure m) i)).sum =
        ((cells.filter fun c => decide (place c.label = some i)).map (·.measure m)).sum := by
    induction cells with
    | nil => rfl
    | cons c rest ih =>
      rw [List.map_cons, List.sum_cons, ih, List.amountAt]
      by_cases here : place c.label = some i <;> simp [here]
  apply List.ext_getElem?
  intro i
  rw [List.getElem?_tally, List.getElem?_tally, amounts, amounts, same.sums fun label => decide (place label = some i)]

theorem trend (same : SameCells host pricing first second) (n : ℕ) (place : CellLabel → Option ℕ) :
    first.foldl (Trend.add fun c => place c.label) (Trend.zero n) =
      second.foldl (Trend.add fun c => place c.label) (Trend.zero n) := by
  apply trend_ext
  intro metric
  rw [trend_values, trend_values, same.tally]

theorem series (same : SameCells host pricing first second) (n : ℕ) (place : CellLabel → Option ℕ) :
    first.foldl (Series.add fun c => place c.label) (Series.zero n) =
      second.foldl (Series.add fun c => place c.label) (Series.zero n) := by
  apply series_ext
  · rw [toTrend_foldl_add, toTrend_foldl_add]
    exact same.trend n place
  · rw [series_requests, series_requests, same.tally]

/-- The entries of a mix are the same. -/
theorem mix (same : SameCells host pricing first second) (dim : Dimension) (aliases : List (String × String))
    (hasPricing : Bool) :
    (CliproxyUsage.ranked (group (·.key dim) first)).map (mixEntry dim aliases hasPricing) =
      (CliproxyUsage.ranked (group (·.key dim) second)).map (mixEntry dim aliases hasPricing) := by
  have shown (groups : List (String × Acc)) : groups.map (mixEntry dim aliases hasPricing) =
      (groups.map withoutLastUsed).map (mixEntry dim aliases hasPricing) := by
    rw [List.map_map]
    rfl
  rw [shown, shown (CliproxyUsage.ranked (group (·.key dim) second)), same.ranked]

/-- The entities of a dimension are the same, with the same slots. -/
theorem entities (same : SameCells host pricing first second) (dim : Dimension) (aliases : List (String × String)) :
    entities aliases first dim = CliproxyUsage.entities aliases second dim := by
  have shown (cells : List Cell) : CliproxyUsage.entities aliases cells dim =
      ((CliproxyUsage.ranked (group (·.key dim) cells)).map withoutLastUsed).zipIdx.map fun pair =>
        { key := pair.1.1, label := label dim aliases pair.1.1,
          slot := if pair.2 < slotCount then some pair.2 else none } := by
    rw [CliproxyUsage.entities, List.zipIdx_map, List.map_map]
    rfl
  rw [shown, shown, same.ranked]

/-- The plan that a model's cells carry is the same. -/
theorem plan (same : SameCells host pricing first second) (model : String) :
    ((first.accumulate Cell.model none fun _ c => c.plan).lookup model).getD none =
      ((second.accumulate Cell.model none fun _ c => c.plan).lookup model).getD none := by
  have empty : CliproxyUsage.ofKey .model model first = [] ↔ CliproxyUsage.ofKey .model model second = [] := by
    have keys := same.keys .model model
    simp only [CliproxyUsage.ofKey, List.filter_eq_nil_iff, decide_eq_true_eq]
    constructor
    · intro none_ c member own
      obtain ⟨other, also, key⟩ := keys.mpr ⟨c, member, own⟩
      exact none_ other also key
    · intro none_ c member own
      obtain ⟨other, also, key⟩ := keys.mp ⟨c, member, own⟩
      exact none_ other also key
  rw [lookup_plan fun c member => same.resolved c (.inl member), lookup_plan fun c member => same.resolved c (.inr member)]
  simp only [empty]

/-- The rows of a breakdown agree but for the last uses. -/
theorem rows (same : SameCells host pricing first second) {before before' : Option (List Cell)}
    (previous : Option.Rel (SameCells host pricing) before before') (dim : Dimension) (aliases : List (String × String))
    (hasPricing : Bool) (n : ℕ) (place : CellLabel → Option ℕ) :
    (breakdownRows dim aliases hasPricing n (fun c => place c.label) first before).map BreakdownRow.withoutLastUsed =
      (breakdownRows dim aliases hasPricing n (fun c => place c.label) second before').map
        BreakdownRow.withoutLastUsed := by
  have keys : (CliproxyUsage.ranked (group (·.key dim) first)).map Prod.fst =
      (CliproxyUsage.ranked (group (·.key dim) second)).map Prod.fst := by
    have entries := congrArg (List.map Prod.fst) (same.ranked dim)
    rwa [List.map_map, List.map_map] at entries
  rw [breakdownRows_withoutLastUsed, breakdownRows_withoutLastUsed, keys]
  refine List.map_congr_left fun key _ => ?_
  have own := same.ofKey dim key
  have earlier : before.map (fun cells =>
        (((CliproxyUsage.ofKey dim key cells).foldl Acc.add {}).totals hasPricing).withoutLastUsed) =
      before'.map fun cells =>
        (((CliproxyUsage.ofKey dim key cells).foldl Acc.add {}).totals hasPricing).withoutLastUsed := by
    cases previous with
    | none => rfl
    | some both => rw [Option.map_some, Option.map_some, (both.ofKey dim key).totals]
  simp only [entityRow, own.totals, own.trend, own.mix, same.plan, earlier]

end SameCells

end CliproxyUsage
