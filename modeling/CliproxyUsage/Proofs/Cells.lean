import CliproxyUsage.Model.Billing
import Mathlib.Tactic.Ring

/-! # Cells are sums of requests

On one state of the table, `fetchCells` returns one cell for each group of counted requests, and
every field of a cell is a sum over its group: the plan join adds no row and drops none, and the
base and above shares price, summed, as the requests do one by one.
-/

namespace CliproxyUsage

open Python Machine Sqlite

variable {host : Host} {pricing : PricingMap}

/-- The plan columns that the join puts beside a request. -/
def planRowFor (host : Host) (pricing : PricingMap) (model : String) : Option PlanRow :=
  (planFor host pricing model).map fun plan => ⟨some model, plan.openai, plan.switch, plan.threshold⟩

/-- A request with its own plan's columns. -/
def rated (host : Host) (pricing : PricingMap) (row : RequestRow) : RatedRow :=
  rateRow (row, planRowFor host pricing row.model)

/-- The counted requests of each cell. -/
def cellGroups (window : Option Window) (filters : Filters) (table : Requests) :
    List (CellKey × List RequestRow) :=
  (table.rows.filter (counted window filters)).groupOn RequestRow.cellKey

/-- The largest timestamp text of a group. -/
def lastText (rows : List RequestRow) : String := rows.foldl (fun last row => max last row.timestamp) ""

private theorem lastText_max (rows : List RequestRow) :
    ("" :: rows.map RequestRow.timestamp).max? = some (lastText rows) := by
  rw [List.max?_cons', List.foldl_map]
  rfl

theorem le_lastText {rows : List RequestRow} {row : RequestRow} (member : row ∈ rows) :
    row.timestamp ≤ lastText rows := by
  have greatest := (List.max?_eq_some_iff.mp (lastText_max rows)).2
  exact greatest _ (List.mem_cons_of_mem _ (List.mem_map_of_mem member))

/-- The largest timestamp of a group is one of its timestamps. -/
theorem lastText_mem {rows : List RequestRow} (some_ : rows ≠ []) : ∃ row ∈ rows, row.timestamp = lastText rows := by
  obtain ⟨listed, _⟩ := List.max?_eq_some_iff.mp (lastText_max rows)
  rcases List.mem_cons.mp listed with empty | member
  · obtain ⟨row, present⟩ := List.exists_mem_of_ne_nil rows some_
    refine ⟨row, present, le_antisymm (le_lastText present) ?_⟩
    rw [empty, String.le_iff_toList_le]
    exact not_lt.mp (List.not_lt_nil _)
  · exact List.mem_map.mp member

/-- The cell of a group, field by field a sum over the group. -/
def summedCell (host : Host) (pricing : PricingMap) (group : CellKey × List RequestRow) (lastUsed : ℤ) :
    Cell where
  sliceNo := group.1.sliceNo
  person := redactKey group.1.apiKey
  model := modelKey group.1.model
  credential := redactSource group.1.source
  requests := group.2.length
  failed := (group.2.map RequestRow.failed).sum
  inputTokens := (group.2.map RequestRow.inputTokens).sum
  outputTokens := (group.2.map RequestRow.outputTokens).sum
  cachedTokens := (group.2.map RequestRow.cachedTokens).sum
  reasoningTokens := (group.2.map RequestRow.reasoningTokens).sum
  latencySum := (group.2.map RequestRow.latencyMs).sum
  lastUsed
  cost := (group.2.map (requestCost host pricing)).sum
  status := (resolve host.lower (modelKey group.1.model) pricing).2
  plan := planFor host pricing group.1.model

theorem plansOf_resolveModels (models : List String) :
    plansOf host (resolveModels host pricing models) =
      models.filterMap fun model => (planFor host pricing model).map fun plan => (model, plan) := by
  simp only [plansOf, resolveModels, List.filterMap_map, planFor, Option.map_map]
  rfl

/-- Exactly the plan row of a request's own model joins it. -/
theorem filter_planRows {models : List String} (unique : models.Nodup) {model : String}
    (known : model ∈ models) :
    (planRows (plansOf host (resolveModels host pricing models))).filter
        (fun plan => decide (plan.planModel = some model)) = (planRowFor host pricing model).toList := by
  rw [plansOf_resolveModels, planRows, List.filter_cons_of_neg (by simp)]
  induction models with
  | nil => contradiction
  | cons first rest ih =>
    obtain ⟨fresh, unique⟩ := List.nodup_cons.mp unique
    have others : model ∉ rest → ((rest.filterMap fun other =>
        (planFor host pricing other).map fun plan => (other, plan)).map fun entry : String × CostPlan =>
          (⟨some entry.1, entry.2.openai, entry.2.switch, entry.2.threshold⟩ : PlanRow)).filter
            (fun plan => decide (plan.planModel = some model)) = [] := by
      intro absent
      refine List.filter_eq_nil_iff.mpr fun plan member => ?_
      obtain ⟨entry, present, rfl⟩ := List.mem_map.mp member
      obtain ⟨other, inRest, found⟩ := List.mem_filterMap.mp present
      obtain ⟨priced, _, rfl⟩ := Option.map_eq_some_iff.mp found
      simp only [Option.some.injEq, decide_eq_true_eq]
      rintro rfl
      exact absent inRest
    by_cases same : first = model
    · subst same
      cases priced : planFor host pricing first <;> simp [priced, planRowFor, others fresh]
    · have later := ih unique ((List.mem_cons.mp known).resolve_left (Ne.symm same))
      cases priced : planFor host pricing first <;> simp [priced, same, later]

/-- SQLite binds the values of the grouped query, four for each priced model. -/
def Binds (host : Host) (pricing : PricingMap) (window : Option Window) (filters : Filters) (table : Requests) : Prop :=
  boundValues window filters (plansOf host (resolveModels host pricing (table.distinct .model))) ≤ host.maxVariables

instance (window : Option Window) (filters : Filters) (table : Requests) :
    Decidable (Binds host pricing window filters table) := inferInstanceAs (Decidable (_ ≤ _))

/-- The period before a window binds as many values as the window. -/
theorem Binds.previous {window before : Window} {filters : Filters} {table : Requests}
    (binds : Binds host pricing (some window) filters table) (shifted : window.previous = .ok (some before)) :
    Binds host pricing (some before) filters table := by
  obtain ⟨_ | start, end_⟩ := window
  · cases shifted
  · rw [Window.previous] at shifted
    dsimp only at shifted
    split at shifted
    · cases shifted
      exact binds
    · cases shifted

/-- The grouped query groups the counted requests, each with its own plan's columns. -/
theorem selectCells_eq {window : Option Window} {filters : Filters} {table : Requests}
    (binds : Binds host pricing window filters table) :
    selectCells host.maxVariables window filters (plansOf host (resolveModels host pricing (table.distinct .model)))
        table =
      (cellGroups window filters table).mapM fun group =>
        cellSums (group.1, group.2.map (rated host pricing)) := by
  have joined : leftJoin (fun row plan => decide (plan.planModel = some row.model)) table.rows
      (planRows (plansOf host (resolveModels host pricing (table.distinct .model)))) =
        table.rows.map fun row => (row, planRowFor host pricing row.model) :=
    leftJoin_eq_map (fun row => planRowFor host pricing row.model) fun row member =>
      filter_planRows (List.nodup_eraseDups _) (Requests.mem_distinct.mpr ⟨row, member, rfl⟩)
  rw [selectCells, if_neg (not_lt.mpr binds), joined]
  dsimp only
  rw [List.filter_map, List.map_map]
  change ((List.map (rated host pricing) (table.rows.filter (counted window filters))).groupOn _).mapM _ = _
  rw [List.groupOn_map, List.mapM_map]
  rfl

/-- Pricing sums of base and above shares prices the rows one by one. -/
private theorem price_sum (plan : CostPlan) (i o c bi bo bc : RatedRow → ℤ) (rows : List RatedRow) :
    plan.price ⟨(rows.map bi).sum, (rows.map bo).sum, 0, (rows.map bc).sum⟩
        ⟨(rows.map i).sum - (rows.map bi).sum, (rows.map o).sum - (rows.map bo).sum, 0,
          (rows.map c).sum - (rows.map bc).sum⟩ =
      (rows.map fun r => plan.price ⟨bi r, bo r, 0, bc r⟩ ⟨i r - bi r, o r - bo r, 0, c r - bc r⟩).sum := by
  induction rows with
  | nil => simp [CostPlan.price, Rates.bill]
  | cons r rest ih =>
    simp only [List.map_cons, List.sum_cons]
    rw [← ih]
    simp only [CostPlan.price, Rates.bill]
    push_cast
    ring

/-- The shares that the query splits one request into bill as the request does. -/
private theorem price_rated {row : RequestRow} {plan : CostPlan}
    (priced : planFor host pricing row.model = some plan) :
    let r := rated host pricing row
    plan.price ⟨baseRate (·.inp) r, baseRate (·.request.outputTokens) r, 0, baseRate (·.cr) r⟩
        ⟨r.inp - baseRate (·.inp) r, r.request.outputTokens - baseRate (·.request.outputTokens) r, 0,
          r.cr - baseRate (·.cr) r⟩ =
      plan.requestCost row := by
  have columns : rated host pricing row =
      ⟨row, plan.switch, plan.threshold, plan.cacheReads row, plan.freshInput row⟩ := by
    simp only [rated, planRowFor, priced, rateRow, Option.map_some, Option.getD_some, CostPlan.cacheReads,
      CostPlan.freshInput]
    cases plan.openai <;> simp
  simp only [columns, baseRate, CostPlan.requestCost, CostPlan.price, CostPlan.amounts, Amounts.below,
    Amounts.excess]
  cases plan.switch with
  | false => simp
  | true =>
    by_cases long : plan.threshold < plan.freshInput row + plan.cacheReads row
    · simp [long, Rates.bill]
    · simp [long, Rates.bill]

/-- The aggregates that the query returns for a group are the sums of its columns. -/
theorem cellSums_ok {group : CellKey × List RatedRow} {sums : CellSums}
    (summed : cellSums group = .ok sums) :
    sums =
      { key := group.1
        requests := group.2.length
        failed := (group.2.map fun r => r.request.failed).sum
        inputTokens := (group.2.map fun r => r.request.inputTokens).sum
        outputTokens := (group.2.map fun r => r.request.outputTokens).sum
        cachedTokens := (group.2.map fun r => r.request.cachedTokens).sum
        reasoningTokens := (group.2.map fun r => r.request.reasoningTokens).sum
        latency := (group.2.map fun r => r.request.latencyMs).sum
        last := group.2.foldl (fun last r => max last r.request.timestamp) ""
        costInp := (group.2.map RatedRow.inp).sum
        costCr := (group.2.map RatedRow.cr).sum
        baseInp := (group.2.map (baseRate RatedRow.inp)).sum
        baseOut := (group.2.map (baseRate fun r => r.request.outputTokens)).sum
        baseCr := (group.2.map (baseRate RatedRow.cr)).sum } := by
  simp only [cellSums, Except.bind_def, Except.bind_eq_ok, Except.ok.injEq] at summed
  obtain ⟨_, h₁, _, h₂, _, h₃, _, h₄, _, h₅, _, h₆, _, h₇, _, h₈, _, h₉, _, h₁₀, _, h₁₁, rfl⟩ := summed
  simp only [sqlSum_ok h₁, sqlSum_ok h₂, sqlSum_ok h₃, sqlSum_ok h₄, sqlSum_ok h₅, sqlSum_ok h₆,
    sqlSum_ok h₇, sqlSum_ok h₈, sqlSum_ok h₉, sqlSum_ok h₁₀, sqlSum_ok h₁₁]

/-- The sums of a group price exactly as its requests, summed. -/
private theorem cellCost_eq {group : CellKey × List RequestRow} {sums : CellSums}
    (model : ∀ row ∈ group.2, row.model = group.1.model)
    (summed : cellSums (group.1, group.2.map (rated host pricing)) = .ok sums) :
    cellCost (planFor host pricing group.1.model) sums = (group.2.map (requestCost host pricing)).sum := by
  rw [cellSums_ok summed]
  cases priced : planFor host pricing group.1.model with
  | none =>
    refine (List.sum_eq_zero fun cost member => ?_).symm
    obtain ⟨row, present, rfl⟩ := List.mem_map.mp member
    rw [requestCost, model row present, priced]
  | some plan =>
    rw [cellCost]
    apply (price_sum plan _ _ _ _ _ _ _).trans
    rw [List.map_map]
    refine congrArg List.sum (List.map_congr_left fun row present => ?_)
    have own : planFor host pricing row.model = some plan := by rw [model row present, priced]
    apply (price_rated own).trans
    rw [requestCost, own]

/-- One cell of one group, with the errors of its sums and of its timestamp. -/
def cellOf (host : Host) (pricing : PricingMap) (group : CellKey × List RequestRow) : Except PyError Cell := do
  let sums ← cellSums (group.1, group.2.map (rated host pricing))
  let lastUsed ← parseTs host sums.last
  .ok
    { summedCell host pricing group lastUsed with
      requests := sums.requests
      failed := sums.failed
      inputTokens := sums.inputTokens
      outputTokens := sums.outputTokens
      cachedTokens := sums.cachedTokens
      reasoningTokens := sums.reasoningTokens
      latencySum := sums.latency
      cost := cellCost (planFor host pricing group.1.model) sums }

/-- A cell is the sum of its group. -/
theorem cellOf_ok {group : CellKey × List RequestRow} {cell : Cell}
    (model : ∀ row ∈ group.2, row.model = group.1.model) (built : cellOf host pricing group = .ok cell) :
    ∃ lastUsed, parseTs host (lastText group.2) = .ok lastUsed ∧ cell = summedCell host pricing group lastUsed := by
  simp only [cellOf, Except.bind_def, Except.bind_eq_ok, Except.ok.injEq] at built
  obtain ⟨sums, summed, lastUsed, parsed, rfl⟩ := built
  have cost := cellCost_eq model summed
  have fields := cellSums_ok summed
  refine ⟨lastUsed, ?_, ?_⟩
  · rw [fields, List.foldl_map] at parsed
    exact parsed
  · rw [cost]
    simp only [fields, summedCell, List.map_map, List.length_map]
    rfl

/-- The members of a cell's group carry its key. -/
theorem cellGroups_members {window : Option Window} {filters : Filters} {table : Requests}
    {group : CellKey × List RequestRow} (member : group ∈ cellGroups window filters table) :
    group.2 ≠ [] ∧ ∀ row ∈ group.2, row ∈ table.rows ∧ counted window filters row ∧ row.cellKey = group.1 := by
  obtain ⟨some_, members⟩ := List.groupOn_members member
  refine ⟨some_, fun row present => ?_⟩
  obtain ⟨selected, atKey⟩ := members row present
  obtain ⟨stored, passes⟩ := List.mem_filter.mp selected
  exact ⟨stored, passes, atKey⟩

theorem model_of_cellGroups {window : Option Window} {filters : Filters} {table : Requests}
    {group : CellKey × List RequestRow} (grouped : group ∈ cellGroups window filters table) :
    ∀ row ∈ group.2, row.model = group.1.model := by
  intro row present
  rw [← ((cellGroups_members grouped).2 row present).2.2]
  rfl

/-- On one state of the table, the cells are those of the groups of counted requests. -/
theorem run_fetchCells_ok_iff {window : Option Window} {filters : Filters} {table : Requests}
    {cells : List Cell} :
    (fetchCells host window filters pricing).run table = .ok cells ↔
      Binds host pricing window filters table ∧
        (cellGroups window filters table).mapM (cellOf host pricing) = .ok cells := by
  simp only [fetchCells, Script.run_bind, Script.run_query, Except.bind_ok, Script.run_lift]
  by_cases binds : Binds host pricing window filters table
  case neg =>
    rw [selectCells, if_pos (not_le.mp binds)]
    exact ⟨nofun, fun both => absurd both.1 binds⟩
  simp only [selectCells_eq binds, List.mapM_mapM_ok_iff, binds, true_and]
  rw [List.mapM_congr fun group member => ?_]
  obtain ⟨some_, members⟩ := cellGroups_members member
  obtain ⟨row, present⟩ := List.exists_mem_of_ne_nil _ some_
  obtain ⟨stored, _, atKey⟩ := members row present
  have known : group.1.model ∈ table.distinct .model :=
    Requests.mem_distinct.mpr ⟨row, stored, by rw [← atKey]; rfl⟩
  rw [cellOf, Except.bind_def]
  cases summed : cellSums (group.1, group.2.map (rated host pricing)) with
  | error e => rfl
  | ok sums =>
    have key : sums.key = group.1 := by rw [cellSums_ok summed]
    have status := List.lookup_map_pair (fun model => resolve host.lower (modelKey model) pricing) known
    have plan := List.lookup_filterMap_pair (planFor host pricing) known
    rw [← plansOf_resolveModels] at plan
    simp only [Except.bind_ok, toCell, key, plan]
    rw [resolveModels, status]
    rfl

/-- Every returned cell is the sum of a group of counted requests. -/
theorem mem_cells {window : Option Window} {filters : Filters} {table : Requests} {cells : List Cell}
    (fetched : (fetchCells host window filters pricing).run table = .ok cells) {c : Cell} (member : c ∈ cells) :
    ∃ group ∈ cellGroups window filters table, ∃ lastUsed,
      parseTs host (lastText group.2) = .ok lastUsed ∧ c = summedCell host pricing group lastUsed := by
  obtain ⟨group, grouped, built⟩ := List.mem_of_mapM_ok (run_fetchCells_ok_iff.mp fetched).2 member
  exact ⟨group, grouped, cellOf_ok (model_of_cellGroups grouped) built⟩

end CliproxyUsage
