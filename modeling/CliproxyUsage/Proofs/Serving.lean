import CliproxyUsage.Proofs.Buckets
import CliproxyUsage.Proofs.Usage

/-! # Tables that every query can serve

When every stored timestamp is one that the server can read, no sum of a column overflows, and SQLite binds
the values of the grouped query, the queries return on every window and in every zone.
-/

namespace CliproxyUsage

open Python Machine Sqlite

/-- The server reads the timestamp of the row as an ordinary instant. -/
def Readable (host : Host) (row : RequestRow) : Prop :=
  ∃ instant, parseTs host row.timestamp = .ok instant ∧ Ordinary instant

/-- The columns of the requests, and the two that the grouped query derives from them. -/
def summedColumns : List (RequestRow → ℤ) :=
  [RequestRow.failed, RequestRow.inputTokens, RequestRow.outputTokens, RequestRow.cachedTokens,
    RequestRow.reasoningTokens, RequestRow.latencyMs, fun row => min row.cachedTokens row.inputTokens,
    fun row => row.inputTokens - min row.cachedTokens row.inputTokens]

/-- The absolute values of every summed column add up to less than 2^63. -/
def SumsFit (rows : List RequestRow) : Prop :=
  ∀ column ∈ summedColumns, (rows.map fun row => |column row|).sum ≤ 9223372036854775807

instance (rows : List RequestRow) : Decidable (SumsFit rows) := List.decidableBAll ..

/-- Every timestamp parses, and the sums are exact. -/
structure Exact (host : Host) (table : Requests) : Prop where
  parses : ∀ row ∈ table.rows, ∃ instant, parseTs host row.timestamp = .ok instant
  fits : SumsFit table.rows

structure Servable (host : Host) (table : Requests) : Prop where
  readable : ∀ row ∈ table.rows, Readable host row
  fits : SumsFit table.rows

variable {host : Host} {pricing : PricingMap} {aliases : List (String × String)} {table : Requests}

private theorem sum_map_abs_le {rows all : List RequestRow} (sub : rows.Sublist all) (column : RequestRow → ℤ) :
    (rows.map fun row => |column row|).sum ≤ (all.map fun row => |column row|).sum :=
  (sub.map _).sum_le_sum fun n member => by
    obtain ⟨row, _, rfl⟩ := List.mem_map.mp member
    exact abs_nonneg _

theorem planFor_threshold {model : String} {plan : CostPlan} (priced : planFor host pricing model = some plan) :
    0 ≤ plan.threshold := by
  obtain ⟨price, _, rfl⟩ := Option.map_eq_some_iff.mp priced
  simp only [costPlan]
  split
  · exact (by decide : 0 ≤ threshold272k)
  · exact (by decide : 0 ≤ threshold200k)

/-- A share of a column is at most the column. -/
theorem abs_baseRate_le {column : RatedRow → ℤ} {r : RatedRow} (threshold : 0 ≤ r.t) :
    |baseRate column r| ≤ |column r| := by
  rw [baseRate]
  split
  · split
    · simp
    · exact le_rfl
  · rcases le_total (column r) r.t with under | past
    · rw [min_eq_left under]
    · rw [min_eq_right past, abs_of_nonneg threshold]
      exact past.trans (le_abs_self _)

private theorem rated_threshold (row : RequestRow) : 0 ≤ (rated host pricing row).t := by
  cases priced : planFor host pricing row.model with
  | none => simp [rated, rateRow, planRowFor, priced]
  | some plan => simpa [rated, rateRow, planRowFor, priced] using planFor_threshold priced

/-- The accounting of a model decides which derived columns its requests bill. -/
private theorem rated_columns (model : String) :
    ∃ cached ∈ summedColumns, ∃ input ∈ summedColumns, ∀ row : RequestRow, row.model = model →
      (rated host pricing row).cr = cached row ∧ (rated host pricing row).inp = input row := by
  cases openai : ((planRowFor host pricing model).map PlanRow.openai).getD false with
  | false =>
    refine ⟨RequestRow.cachedTokens, by simp [summedColumns], RequestRow.inputTokens, by simp [summedColumns], ?_⟩
    rintro row rfl
    simp [rated, rateRow, openai]
  | true =>
    refine ⟨fun row => min row.cachedTokens row.inputTokens, by simp [summedColumns],
      fun row => row.inputTokens - min row.cachedTokens row.inputTokens, by simp [summedColumns], ?_⟩
    rintro row rfl
    simp [rated, rateRow, openai]

/-- A column of a group that stays below a summed column of the table does not overflow. -/
private theorem sqlSum_group {rows : List RequestRow} (fits : SumsFit table.rows) (sub : rows.Sublist table.rows)
    {column : RequestRow → ℤ} (summed : column ∈ summedColumns) {share : RatedRow → ℤ}
    (bound : ∀ row ∈ rows, |share (rated host pricing row)| ≤ |column row|) :
    ∃ total, sqlSum ((rows.map (rated host pricing)).map share) = .ok total := by
  refine ⟨_, sqlSum_fits ?_⟩
  simp only [List.map_map, Function.comp_def]
  calc (rows.map fun row => |share (rated host pricing row)|).sum
      ≤ (rows.map fun row => |column row|).sum := List.sum_le_sum bound
    _ ≤ (table.rows.map fun row => |column row|).sum := sum_map_abs_le sub column
    _ ≤ 9223372036854775807 := fits column summed

/-- The aggregates of every group are returned. -/
private theorem cellSums_total (fits : SumsFit table.rows) {window : Option Window} {filters : Filters}
    {group : CellKey × List RequestRow} (grouped : group ∈ cellGroups window filters table) :
    ∃ sums, cellSums (group.1, group.2.map (rated host pricing)) = .ok sums := by
  have sub : group.2.Sublist table.rows := by
    rw [(List.mem_groupOn.mp grouped).2]
    exact List.filter_sublist.trans List.filter_sublist
  have model := model_of_cellGroups grouped
  obtain ⟨cached, cachedSummed, input, inputSummed, columns⟩ := @rated_columns host pricing group.1.model
  have plain (column : RequestRow → ℤ) (summed : column ∈ summedColumns) :
      ∃ total, sqlSum ((group.2.map (rated host pricing)).map fun r => column r.request) = .ok total :=
    sqlSum_group fits sub summed fun row _ => le_rfl
  have cr : ∀ row ∈ group.2, |(rated host pricing row).cr| ≤ |cached row| := by
    intro row present
    rw [(columns row (model row present)).1]
  have inp : ∀ row ∈ group.2, |(rated host pricing row).inp| ≤ |input row| := by
    intro row present
    rw [(columns row (model row present)).2]
  have share {column : RatedRow → ℤ} (row : RequestRow) :
      |baseRate column (rated host pricing row)| ≤ |column (rated host pricing row)| :=
    abs_baseRate_le (rated_threshold row)
  obtain ⟨_, failed⟩ := plain RequestRow.failed (by simp [summedColumns])
  obtain ⟨_, inputTokens⟩ := plain RequestRow.inputTokens (by simp [summedColumns])
  obtain ⟨_, outputTokens⟩ := plain RequestRow.outputTokens (by simp [summedColumns])
  obtain ⟨_, cachedTokens⟩ := plain RequestRow.cachedTokens (by simp [summedColumns])
  obtain ⟨_, reasoningTokens⟩ := plain RequestRow.reasoningTokens (by simp [summedColumns])
  obtain ⟨_, latency⟩ := plain RequestRow.latencyMs (by simp [summedColumns])
  obtain ⟨_, costInp⟩ := sqlSum_group fits sub inputSummed inp
  obtain ⟨_, costCr⟩ := sqlSum_group fits sub cachedSummed cr
  obtain ⟨_, baseInp⟩ := sqlSum_group fits sub inputSummed fun row present => (share row).trans (inp row present)
  obtain ⟨_, baseOut⟩ := @sqlSum_group host pricing table group.2 fits sub RequestRow.outputTokens
    (by simp [summedColumns]) (baseRate fun r => r.request.outputTokens) fun row _ => share row
  obtain ⟨_, baseCr⟩ := sqlSum_group fits sub cachedSummed fun row present => (share row).trans (cr row present)
  simp only [cellSums, failed, inputTokens, outputTokens, cachedTokens, reasoningTokens, latency, costInp, costCr,
    baseInp, baseOut, baseCr, Except.bind_def, Except.bind_ok]
  exact ⟨_, rfl⟩

/-- When every timestamp parses and no sum overflows, every statement of `fetchCells` returns. -/
theorem fetchCells_returns (parses : ∀ row ∈ table.rows, ∃ instant, parseTs host row.timestamp = .ok instant)
    (fits : SumsFit table.rows) {window : Option Window} {filters : Filters}
    (binds : Binds host pricing window filters table) :
    ∃ cells, (fetchCells host window filters pricing).run table = .ok cells := by
  simp only [run_fetchCells_ok_iff, binds, true_and]
  refine List.mapM_total fun group grouped => ?_
  obtain ⟨sums, summed⟩ := @cellSums_total host pricing table fits window filters group grouped
  obtain ⟨some_, members⟩ := cellGroups_members grouped
  obtain ⟨row, present, last⟩ := lastText_mem some_
  obtain ⟨instant, parsed⟩ := parses row (members row present).1
  have text : sums.last = row.timestamp := by
    rw [last, cellSums_ok summed, lastText, List.foldl_map]
    rfl
  rw [cellOf, summed, Except.bind_def, Except.bind_ok, text, parsed]
  exact ⟨_, rfl⟩

/-- On a servable table every statement of `fetchCells` returns. -/
theorem fetchCells_total (servable : Servable host table) {window : Option Window} {filters : Filters}
    (binds : Binds host pricing window filters table) :
    ∃ cells, (fetchCells host window filters pricing).run table = .ok cells := by
  apply fetchCells_returns _ servable.fits binds
  intro row member
  obtain ⟨instant, parsed, _⟩ := servable.readable row member
  exact ⟨instant, parsed⟩

theorem dataStart_total (servable : Servable host table) :
    ∃ start, (dataStart host).run table = .ok start ∧ ∀ instant, start = some instant → Ordinary instant := by
  simp only [dataStart, Script.run_bind, Script.run_query, Except.bind_ok]
  cases first : table.rows.argmin RequestRow.startKey with
  | none => exact ⟨none, by simp [dataStartText, first], by simp⟩
  | some row =>
    obtain ⟨instant, parsed, ordinary⟩ := servable.readable row (List.argmin_mem first)
    refine ⟨some instant, ?_, ?_⟩
    · simp [dataStartText, first, parsed, Except.bind_ok]
    · rintro other same
      cases same
      exact ordinary

/-- The window, and the period before it, lie in ordinary times. -/
structure Window.Fair (window : Window) : Prop where
  end_ : Ordinary window.end_
  start : ∀ start, window.start = some start → Ordinary start ∧ InRange (start - (window.end_ - start))

theorem axis_total (servable : Servable host table) {window : Window} (fair : window.Fair)
    (requested : Option Bucket) (tz : Zone) : ∃ ax, (axis host window requested tz).run table = .ok ax := by
  have fromStart : ∀ start, Ordinary start → ∃ ax, axisFrom start window.end_ requested tz = .ok ax :=
    fun start ordinary => axisFrom_ok_iff.mpr (searchFits_of_ordinary ordinary fair.end_ _)
  cases begin_ : window.start with
  | some start =>
    obtain ⟨ax, made⟩ := fromStart start (fair.start start begin_).1
    exact ⟨ax, by simp [axis, begin_, made, Except.bind_ok]⟩
  | none =>
    obtain ⟨first, read, ordinary⟩ := dataStart_total servable
    have start : Ordinary (first.getD window.end_) := by
      cases first with
      | none => exact fair.end_
      | some instant => exact ordinary instant rfl
    obtain ⟨ax, made⟩ := fromStart _ start
    exact ⟨ax, by simp [axis, begin_, read, made, Except.bind_ok]⟩

theorem previousCells_total (servable : Servable host table) {window : Window} (fair : window.Fair)
    {filters : Filters} (binds : Binds host pricing (some window) filters table) :
    ∃ previous, (previousCells host window filters pricing).run table = .ok previous := by
  obtain ⟨period, shifted⟩ : ∃ period, window.previous = .ok period := by
    rw [Window.previous]
    cases begin_ : window.start with
    | none => exact ⟨none, rfl⟩
    | some start => exact ⟨_, if_pos (fair.start start begin_).2⟩
  simp only [previousCells, Script.run_bind, Script.run_lift, shifted, Except.bind_ok]
  cases period with
  | none => exact ⟨none, rfl⟩
  | some before =>
    obtain ⟨cells, fetched⟩ := fetchCells_total servable (binds.previous shifted)
    simp only [Except.bind_ok, Script.run_bind, Script.run_pure, fetched]
    exact ⟨_, rfl⟩

/-- On a servable table the summary of a fair window returns. -/
theorem querySummary_total (servable : Servable host table) {window : Window} (fair : window.Fair)
    (requested : Option Bucket) (tz : Zone) {filters : Filters}
    (binds : Binds host pricing (some window) filters table) :
    ∃ response, (querySummary host window requested tz filters pricing).run table = .ok response := by
  obtain ⟨ax, axed⟩ := axis_total servable fair requested tz
  obtain ⟨cells, fetched⟩ := fetchCells_total servable binds
  obtain ⟨previous, before⟩ := previousCells_total servable fair binds
  exact ⟨_, run_querySummary_ok_iff.mpr ⟨ax, axed, cells, fetched, previous, before, rfl⟩⟩

/-- On a servable table the breakdown of a fair window returns. -/
theorem queryBreakdown_total (servable : Servable host table) (dim : Dimension) {window : Window} (fair : window.Fair)
    (requested : Option Bucket) (tz : Zone) {filters : Filters}
    (binds : Binds host pricing (some window) filters table) :
    ∃ response, (queryBreakdown host dim window requested tz filters pricing aliases).run table = .ok response := by
  obtain ⟨ax, axed⟩ := axis_total servable fair requested tz
  obtain ⟨cells, fetched⟩ := fetchCells_total servable binds
  obtain ⟨previous, before⟩ := previousCells_total servable fair binds
  exact ⟨_, run_queryBreakdown_ok_iff.mpr ⟨ax, axed, cells, fetched, previous, before, rfl⟩⟩

/-- On a servable table the options return. -/
theorem queryOptions_total (servable : Servable host table) (binds : Binds host pricing none {} table) :
    ∃ response, (queryOptions host pricing aliases).run table = .ok response := by
  obtain ⟨cells, fetched⟩ := fetchCells_total servable binds
  exact ⟨_, run_queryOptions_ok_iff.mpr ⟨cells, fetched, rfl⟩⟩

end CliproxyUsage
