import CliproxyUsage.Model.Routes
import CliproxyUsage.Proofs.Cells

/-! # Groupings of cells

What the queries compute their responses from, and the keys under which a response lists cells: ranking
only reorders a grouping, and the keys of a grouping are those of its cells.
-/

namespace CliproxyUsage

open Python Machine

variable {host : Host} {pricing : PricingMap}

section Responses

variable {window : Window} {requested : Option Bucket} {tz : Zone} {filters : Filters} {table : Requests}
  {aliases : List (String × String)}

/-- A summary is computed from its axis, its cells, and those of the previous period. -/
theorem run_querySummary_ok_iff {response : SummaryResponse} :
    (querySummary host window requested tz filters pricing).run table = .ok response ↔
      ∃ ax, (axis host window requested tz).run table = .ok ax ∧
        ∃ cells, (fetchCells host (some window) filters pricing).run table = .ok cells ∧
          ∃ previous, (previousCells host window filters pricing).run table = .ok previous ∧
            SummaryResponse.mk ax.bucket ax.starts ((cells.foldl Acc.add {}).totals pricing.nonEmpty)
              (previous.map fun cells => (cells.foldl Acc.add {}).totals pricing.nonEmpty)
              (cells.foldl (Series.add ax.position) (Series.zero ax.starts.length)) = response := by
  simp only [querySummary, Script.run_bind, Script.run_pure, Except.bind_eq_ok, Except.ok.injEq]

/-- So is a breakdown. -/
theorem run_queryBreakdown_ok_iff {dim : Dimension} {response : BreakdownResponse} :
    (queryBreakdown host dim window requested tz filters pricing aliases).run table = .ok response ↔
      ∃ ax, (axis host window requested tz).run table = .ok ax ∧
        ∃ cells, (fetchCells host (some window) filters pricing).run table = .ok cells ∧
          ∃ previous, (previousCells host window filters pricing).run table = .ok previous ∧
            BreakdownResponse.mk dim ax.bucket ax.starts (breakdownRows dim aliases pricing.nonEmpty ax.starts.length
              ax.position cells previous) = response := by
  simp only [queryBreakdown, Script.run_bind, Script.run_pure, Except.bind_eq_ok, Except.ok.injEq]

theorem run_queryOptions_ok_iff {response : OptionsResponse} :
    (queryOptions host pricing aliases).run table = .ok response ↔
      ∃ cells, (fetchCells host none {} pricing).run table = .ok cells ∧
        OptionsResponse.mk (entities aliases cells .person) (entities aliases cells .model)
          (entities aliases cells .credential) = response := by
  simp only [queryOptions, Script.run_bind, Script.run_pure, Except.bind_eq_ok, Except.ok.injEq]

end Responses

theorem ranked_perm (groups : List (String × Acc)) : (ranked groups).Perm groups :=
  List.perm_insertionSort _ groups

/-- The last use of some cells is the greatest of theirs. -/
theorem lastUsed_foldl (cells : List Cell) : (cells.foldl Acc.add {}).lastUsed = (cells.map Cell.lastUsed).max? := by
  have running (acc : Acc) (last : ℤ) (known : acc.lastUsed = some last) (rest : List Cell) :
      (rest.foldl Acc.add acc).lastUsed = some (rest.foldl (fun last c => max last c.lastUsed) last) := by
    induction rest generalizing acc last with
    | nil => exact known
    | cons c rest ih =>
      rw [List.foldl_cons, List.foldl_cons, ih]
      rw [Acc.add, known]
      simp only [max_def, Option.some.injEq]
      split <;> split <;> omega
  cases cells with
  | nil => rfl
  | cons c rest =>
    rw [List.map_cons, List.max?_cons', List.foldl_map, List.foldl_cons]
    exact running _ _ rfl rest

/-- The keys of a grouping of cells are the keys of its cells. -/
theorem mem_group_keys {key : Cell → String} {cells : List Cell} {k : String} :
    k ∈ (group key cells).map Prod.fst ↔ ∃ c ∈ cells, key c = k := by
  rw [group, List.accumulate_eq_groupOn, List.map_map]
  change k ∈ (List.groupOn key cells).map Prod.fst ↔ _
  rw [List.groupOn_keys]
  simp

theorem mem_entities_keys {aliases : List (String × String)} {cells : List Cell} {dim : Dimension} {k : String} :
    k ∈ (entities aliases cells dim).map Entity.key ↔ ∃ c ∈ cells, c.key dim = k := by
  rw [← mem_group_keys, entities, List.map_map]
  have keys : (ranked (group (·.key dim) cells)).zipIdx.map (fun pair => pair.1.1) =
      (ranked (group (·.key dim) cells)).map Prod.fst := by
    conv_rhs => rw [← List.zipIdx_map_fst 0 (ranked (group (·.key dim) cells)), List.map_map]
    rfl
  change k ∈ (ranked (group (·.key dim) cells)).zipIdx.map (fun pair => pair.1.1) ↔ _
  rw [keys]
  exact ((ranked_perm _).map _).mem_iff

/-- The key of a cell is the display key of a stored value. -/
theorem key_of_cell {window : Option Window} {filters : Filters}
    {table : Requests} {cells : List Cell} {c : Cell}
    (fetched : (fetchCells host window filters pricing).run table = .ok cells) (member : c ∈ cells)
    (dim : Dimension) : ∃ value ∈ table.distinct dim.column, filterKey dim.column value = c.key dim := by
  obtain ⟨group, grouped, _, _, rfl⟩ := mem_cells fetched member
  obtain ⟨some_, members⟩ := cellGroups_members grouped
  obtain ⟨row, present⟩ := List.exists_mem_of_ne_nil _ some_
  obtain ⟨stored, _, atKey⟩ := members row present
  refine ⟨row.column dim.column, Requests.mem_distinct.mpr ⟨row, stored, rfl⟩, ?_⟩
  rw [summedCell, ← atKey]
  cases dim <;> rfl

/-- A resolved filter admits the stored rows whose display key is selected. -/
theorem admitsColumn_resolved {table : Requests} {column : FilterColumn} {keys values : Option (List String)}
    {filters : Filters} (resolved : (resolveFilter column keys).run table = .ok values)
    (own : filters.values column = values) {row : RequestRow} (stored : row ∈ table.rows) :
    filters.admitsColumn row column = keys.all fun target => decide (filterKey column (row.column column) ∈ target) := by
  cases keys with
  | none =>
    cases resolved
    rw [Filters.admitsColumn, own]
    rfl
  | some target =>
    simp only [resolveFilter, Script.run_bind, Script.run_query, Except.bind_ok, Script.run_pure,
      Except.ok.injEq] at resolved
    have listed : row.column column ∈ table.distinct column := Requests.mem_distinct.mpr ⟨row, stored, rfl⟩
    rw [Filters.admitsColumn, own, ← resolved]
    simp [listed]

theorem filters_total {table : Requests} (rng : RangeParams) : ∃ filters, rng.filters.run table = .ok filters := by
  have resolved : ∀ column keys, ∃ values, (resolveFilter column keys).run table = .ok values := by
    intro column keys
    cases keys with
    | none => exact ⟨none, rfl⟩
    | some target =>
      simp only [resolveFilter, Script.run_bind, Script.run_query, Except.bind_ok, Script.run_pure]
      exact ⟨_, rfl⟩
  obtain ⟨_, apiKeys⟩ := resolved .apiKey rng.people
  obtain ⟨_, models⟩ := resolved .model rng.models
  obtain ⟨_, sources⟩ := resolved .source rng.credentials
  simp only [RangeParams.filters, Script.run_bind, apiKeys, models, sources, Except.bind_ok, Script.run_pure]
  exact ⟨_, rfl⟩

def CellKey.column (key : CellKey) : FilterColumn → String
  | .apiKey => key.apiKey
  | .model => key.model
  | .source => key.source

theorem cellKey_column (row : RequestRow) (column : FilterColumn) : row.cellKey.column column = row.column column := by
  cases column <;> rfl

theorem summedCell_key (group : CellKey × List RequestRow) (lastUsed : ℤ) (dim : Dimension) :
    (summedCell host pricing group lastUsed).key dim = filterKey dim.column (group.1.column dim.column) := by
  cases dim <;> rfl

/-- Filters that narrow the counted rows to one display key narrow the cells to that key. -/
theorem fetchCells_narrowed {window : Option Window} {filters narrowed : Filters} {table : Requests} {cells : List Cell}
    {dim : Dimension} {k : String}
    (narrows : ∀ row ∈ table.rows, counted window narrowed row =
      (decide (filterKey dim.column (row.column dim.column) = k) && counted window filters row))
    (binds : Binds host pricing window narrowed table)
    (fetched : (fetchCells host window filters pricing).run table = .ok cells) :
    (fetchCells host window narrowed pricing).run table = .ok (cells.filter fun c => decide (c.key dim = k)) := by
  have groups : cellGroups window narrowed table = (cellGroups window filters table).filter fun group =>
      decide (filterKey dim.column (group.1.column dim.column) = k) := by
    have regrouped := List.groupOn_filter RequestRow.cellKey (table.rows.filter (counted window filters))
      fun key => decide (filterKey dim.column (key.column dim.column) = k)
    simp only [cellKey_column] at regrouped
    rw [cellGroups, cellGroups, List.filter_congr narrows, ← List.filter_filter, regrouped]
  rw [run_fetchCells_ok_iff] at fetched ⊢
  rw [groups]
  refine ⟨binds, List.mapM_filter_ok (fun group grouped cell built => ?_) fetched.2⟩
  obtain ⟨lastUsed, _, rfl⟩ := cellOf_ok (model_of_cellGroups grouped) built
  rw [summedCell_key]

/-- The cells of one entity. -/
def ofKey (dim : Dimension) (k : String) (cells : List Cell) : List Cell :=
  cells.filter fun c => decide (c.key dim = k)

theorem mem_of_ofKey {dim : Dimension} {k : String} {cells : List Cell} {c : Cell} (member : c ∈ ofKey dim k cells) :
    c ∈ cells :=
  List.mem_of_mem_filter member

theorem mem_ofKey {dim : Dimension} {k : String} {cells : List Cell} {c : Cell} (member : c ∈ cells)
    (key : c.key dim = k) : c ∈ ofKey dim k cells :=
  List.mem_filter.mpr ⟨member, decide_eq_true key⟩

/-- A row of a breakdown is computed from the cells of its key alone. -/
theorem mem_breakdownRows {dim : Dimension} {aliases : List (String × String)} {hasPricing : Bool} {n : ℕ}
    {position : Cell → Option ℕ} {cells : List Cell} {previous : Option (List Cell)} {row : BreakdownRow}
    (member : row ∈ breakdownRows dim aliases hasPricing n position cells previous) :
    (∃ c ∈ cells, c.key dim = row.key) ∧
    row.current = ((ofKey dim row.key cells).foldl Acc.add {}).totals hasPricing ∧
    row.previous = (previous.map fun before => ((ofKey dim row.key before).foldl Acc.add {}).totals hasPricing) ∧
    row.trend = (ofKey dim row.key cells).foldl (Trend.add position) (Trend.zero n) ∧
    row.mix = (ranked (group (·.key (mixDim dim)) (ofKey dim row.key cells))).map
      (mixEntry (mixDim dim) aliases hasPricing) := by
  obtain ⟨entry, listed, rfl⟩ := List.mem_map.mp member
  obtain ⟨known, current⟩ := List.mem_accumulate ((ranked_perm _).mem_iff.mp listed)
  obtain ⟨c, present, same⟩ := List.mem_map.mp known
  refine ⟨⟨c, present, same⟩, ?_, ?_, ?_, ?_⟩
  · dsimp only
    rw [current]
    rfl
  · simp only [Option.map_map, Function.comp_def, group, List.lookup_accumulate]
    rfl
  · dsimp only
    rw [List.lookup_accumulate]
    rfl
  · dsimp only
    rw [List.lookup_accumulate]
    rfl

end CliproxyUsage
