import CliproxyUsage.Proofs.Totals

/-! # Drilling down into a breakdown row

The drawer of an entity asks for a summary and a breakdown filtered by the entity's key. Where the
filter it replaces keeps the rows of one display key together, the filtered queries count the rows
of the entity and no others, so they agree with the row the drawer was opened from.
-/

namespace CliproxyUsage

open Python Machine

variable {host : Host} {pricing : PricingMap} {aliases : List (String × String)}

/-- Filters with the clause of one column replaced. -/
def Filters.replace (filters : Filters) (column : FilterColumn) (values : Option (List String)) : Filters :=
  match column with
  | .apiKey => { filters with apiKeys := values }
  | .model => { filters with models := values }
  | .source => { filters with sources := values }

theorem Filters.values_replace_self (filters : Filters) (column : FilterColumn) (values : Option (List String)) :
    (filters.replace column values).values column = values := by
  cases column <;> rfl

theorem Filters.values_replace_of_ne (filters : Filters) {column other : FilterColumn} (differ : other ≠ column)
    (values : Option (List String)) : (filters.replace column values).values other = filters.values other := by
  cases column <;> cases other <;> first | rfl | contradiction

/-- With each stored value that it admits, a column's filter admits every stored value of the same
display key. -/
def Filters.KeepsKeys (filters : Filters) (column : FilterColumn) (table : Requests) : Prop :=
  ∀ row ∈ table.rows, ∀ other ∈ table.rows,
    filterKey column (row.column column) = filterKey column (other.column column) →
      filters.admitsColumn row column = filters.admitsColumn other column

section Resolved

variable {table : Requests} {column : FilterColumn} {values : Option (List String)} {filters : Filters}

/-- A resolved filter admits the stored rows whose display key is selected. -/
theorem admits_resolved {target : List String}
    (resolved : (resolveFilter column (some target)).run table = .ok values) {row : RequestRow}
    (stored : row ∈ table.rows) :
    (filters.replace column values).admitsColumn row column = decide (filterKey column (row.column column) ∈ target) :=
  admitsColumn_resolved resolved (Filters.values_replace_self filters column values) stored

/-- The filters that the routes resolve keep the rows of a display key together. -/
theorem keepsKeys_of_resolveFilter {keys : Option (List String)}
    (resolved : (resolveFilter column keys).run table = .ok values) :
    (filters.replace column values).KeepsKeys column table := by
  intro row stored other also same
  cases keys with
  | none =>
    cases resolved
    rw [Filters.admitsColumn, Filters.admitsColumn, Filters.values_replace_self]
  | some target => rw [admits_resolved resolved stored, admits_resolved resolved also, same]

/-- Filtering by one display key counts the rows that the base filters count under that key. -/
private theorem counted_replace {k : String} (resolved : (resolveFilter column (some [k])).run table = .ok values)
    {row : RequestRow} (stored : row ∈ table.rows)
    (base : filterKey column (row.column column) = k → filters.admitsColumn row column = true)
    (window : Option Window) :
    counted window (filters.replace column values) row =
      (decide (filterKey column (row.column column) = k) && counted window filters row) := by
  have own := @admits_resolved table column values filters [k] resolved row stored
  have others : ∀ other, other ≠ column →
      (filters.replace column values).admitsColumn row other = filters.admitsColumn row other := by
    intro other differ
    rw [Filters.admitsColumn, Filters.admitsColumn, Filters.values_replace_of_ne filters differ]
  rw [counted, counted]
  by_cases same : filterKey column (row.column column) = k
  · have admitted := base same
    cases column <;> simp [own, others, same, admitted]
  · cases column <;> simp [own, same]

end Resolved

/-- The previous period narrows as the current one does. -/
private theorem previousCells_narrowed {window : Window} {filters narrowed : Filters} {table : Requests}
    {before : Option (List Cell)} {dim : Dimension} {k : String}
    (narrows : ∀ window, ∀ row ∈ table.rows, counted window narrowed row =
      (decide (filterKey dim.column (row.column dim.column) = k) && counted window filters row))
    (binds : Binds host pricing (some window) narrowed table)
    (fetched : (previousCells host window filters pricing).run table = .ok before) :
    (previousCells host window narrowed pricing).run table = .ok (before.map (ofKey dim k)) := by
  simp only [previousCells, Script.run_bind, Script.run_lift, Except.bind_eq_ok] at fetched ⊢
  obtain ⟨period, shifted, fetched⟩ := fetched
  refine ⟨period, shifted, ?_⟩
  cases period with
  | none =>
    cases fetched
    rfl
  | some period =>
    simp only [Script.run_bind, Script.run_pure, Except.bind_eq_ok, Except.ok.injEq] at fetched ⊢
    obtain ⟨cells, fetched, rfl⟩ := fetched
    exact ⟨_, fetchCells_narrowed (narrows (some period)) (binds.previous shifted) fetched, rfl⟩

/-- What a row shows as an entry of a mix. -/
def BreakdownRow.asMixEntry (row : BreakdownRow) : MixEntry :=
  ⟨row.key, row.label, row.current.cost, row.current.inputTokens, row.current.outputTokens, row.current.cachedTokens⟩

/-- The rows of a breakdown, as entries of a mix. -/
private theorem asMixEntry_breakdownRows (dim : Dimension) (hasPricing : Bool) (n : ℕ) (position : Cell → Option ℕ)
    (cells : List Cell) (previous : Option (List Cell)) :
    (breakdownRows dim aliases hasPricing n position cells previous).map BreakdownRow.asMixEntry =
      (ranked (group (·.key dim) cells)).map (mixEntry dim aliases hasPricing) := by
  rw [breakdownRows, List.map_map]
  rfl

/-- A summary filtered by the key of a breakdown row agrees with the row, and so does the breakdown
by its paired dimension with the row's mix; both return unless the key has more raw values than SQLite binds. -/
theorem drill_down_agrees {dim : Dimension} {window : Window} {requested : Option Bucket} {tz : Zone}
    {filters : Filters} {table : Requests} {response : BreakdownResponse} {row : BreakdownRow}
    {values : Option (List String)} (keeps : filters.KeepsKeys dim.column table)
    (listed : (queryBreakdown host dim window requested tz filters pricing aliases).run table = .ok response)
    (member : row ∈ response.rows)
    (resolved : (resolveFilter dim.column (some [row.key])).run table = .ok values) :
    (∀ summary, (querySummary host window requested tz (filters.replace dim.column values) pricing).run table =
        .ok summary →
      summary.current = row.current ∧ summary.previous = row.previous ∧ summary.series.toTrend = row.trend) ∧
    (∀ mixed, (queryBreakdown host (mixDim dim) window requested tz (filters.replace dim.column values) pricing
        aliases).run table = .ok mixed →
      mixed.rows.map BreakdownRow.asMixEntry = row.mix) ∧
    (Binds host pricing (some window) (filters.replace dim.column values) table →
      (∃ summary, (querySummary host window requested tz (filters.replace dim.column values) pricing).run table =
        .ok summary) ∧
      ∃ mixed, (queryBreakdown host (mixDim dim) window requested tz (filters.replace dim.column values) pricing
        aliases).run table = .ok mixed) := by
  obtain ⟨ax, axed, cells, fetched, before, fetchedBefore, rfl⟩ := run_queryBreakdown_ok_iff.mp listed
  obtain ⟨⟨c, present, keyed⟩, current, previous, trend, mix⟩ := mem_breakdownRows member
  -- A counted row has the key, so the base filter admits every stored row that has it.
  have base : ∀ r ∈ table.rows, filterKey dim.column (r.column dim.column) = row.key →
      filters.admitsColumn r dim.column = true := by
    obtain ⟨group, grouped, _, _, rfl⟩ := mem_cells fetched present
    obtain ⟨some_, members⟩ := cellGroups_members grouped
    obtain ⟨first, inGroup⟩ := List.exists_mem_of_ne_nil _ some_
    obtain ⟨stored, counts, atKey⟩ := members first inGroup
    intro r also same
    rw [summedCell_key, ← atKey, cellKey_column] at keyed
    rw [keeps r also first stored (same.trans keyed.symm)]
    simp only [counted, Bool.and_eq_true] at counts
    cases dim with
    | person => exact counts.1.1.2
    | model => exact counts.1.2
    | credential => exact counts.2
  have narrows : ∀ window, ∀ r ∈ table.rows, counted window (filters.replace dim.column values) r =
      (decide (filterKey dim.column (r.column dim.column) = row.key) && counted window filters r) :=
    fun window r also => counted_replace resolved also (base r also) window
  have own (binds : Binds host pricing (some window) (filters.replace dim.column values) table) :=
    fetchCells_narrowed (narrows (some window)) binds fetched
  have ownBefore (binds : Binds host pricing (some window) (filters.replace dim.column values) table) :=
    previousCells_narrowed narrows binds fetchedBefore
  refine ⟨?_, ?_, fun binds => ⟨?_, ?_⟩⟩
  · intro summary answered
    obtain ⟨ax', axed', cells', fetched', before', fetchedBefore', rfl⟩ := run_querySummary_ok_iff.mp answered
    have binds := (run_fetchCells_ok_iff.mp fetched').1
    cases axed.symm.trans axed'
    cases (own binds).symm.trans fetched'
    cases (ownBefore binds).symm.trans fetchedBefore'
    refine ⟨current.symm, ?_, ?_⟩
    · rw [previous, Option.map_map]
      rfl
    · rw [trend, toTrend_foldl_add]
      rfl
  · intro mixed answered
    obtain ⟨ax', axed', cells', fetched', before', fetchedBefore', rfl⟩ := run_queryBreakdown_ok_iff.mp answered
    have binds := (run_fetchCells_ok_iff.mp fetched').1
    cases (own binds).symm.trans fetched'
    rw [mix, asMixEntry_breakdownRows]
    rfl
  · exact ⟨_, run_querySummary_ok_iff.mpr ⟨ax, axed, _, own binds, _, ownBefore binds, rfl⟩⟩
  · exact ⟨_, run_queryBreakdown_ok_iff.mpr ⟨ax, axed, _, own binds, _, ownBefore binds, rfl⟩⟩

def keyedRow (timestamp apiKey model : String) (inputTokens : ℤ) : RequestRow :=
  ⟨timestamp, apiKey, model, "dev@example.com", "0", 1200, inputTokens, 10, 0, 0, inputTokens + 10, 0⟩

/-- Two API keys that are shown as one person. -/
def sharedTable : Requests :=
  ⟨[keyedRow "2026-03-01T10:00:00Z" "sk-a-0001" "m" 100, keyedRow "2026-03-01T11:30:00Z" "sk-b-0001" "n" 200],
    by decide⟩

def flatPricing : PricingMap := ⟨[("m", { inputCostPerToken := 1 / 1000, outputCostPerToken := 0 })], by decide⟩

/-- From 10:00 to 12:00 on the day of the requests. -/
def twoHours : Window := ⟨some 1772359200000000, 1772366400000000⟩

def noRequests : Totals := ⟨0, 0, 0, 0, 0, 0, some 0, .live, 0, none⟩

def bothRequests : Totals := ⟨2, 0, 300, 20, 0, 0, some (1 / 10), .partialMissing, 1200, some 1772364600000000⟩

def firstRequest : Totals := ⟨1, 0, 100, 10, 0, 0, some (1 / 10), .live, 1200, some 1772359200000000⟩

def sharedRow : BreakdownRow where
  key := "sk-*******-0001"
  label := "team"
  current := bothRequests
  previous := some noRequests
  trend := ⟨[1 / 10, 0], [100, 200], [10, 10], [0, 0]⟩
  mix := [⟨"m", "m", some (1 / 10), 100, 10, 0⟩, ⟨"n", "n", none, 200, 10, 0⟩]
  price := none

def sharedResponse : BreakdownResponse where
  dim := .person
  bucket := .hour
  buckets := [⟨1772359200000000, false⟩, ⟨1772362800000000, false⟩]
  rows := [sharedRow]

def bothKeys : List String := ["sk-a-0001", "sk-b-0001"]

theorem drill_down_agrees_shared :
    (∃ summary, (querySummary .utc twoHours (some .hour) .utc
        (Filters.replace {} (Dimension.column .person) (some bothKeys)) flatPricing).run sharedTable = .ok summary ∧
      summary.current = sharedRow.current ∧ summary.previous = sharedRow.previous ∧
      summary.series.toTrend = sharedRow.trend) ∧
    ∃ mixed, (queryBreakdown .utc (mixDim .person) twoHours (some .hour) .utc
        (Filters.replace {} (Dimension.column .person) (some bothKeys)) flatPricing
        [("sk-*******-0001", "team")]).run sharedTable = .ok mixed ∧
      mixed.rows.map BreakdownRow.asMixEntry = sharedRow.mix := by
  have unfiltered : (resolveFilter (Dimension.column .person) none).run sharedTable = .ok none := rfl
  have keeps : Filters.KeepsKeys {} (Dimension.column .person) sharedTable :=
    @keepsKeys_of_resolveFilter sharedTable _ none {} none unfiltered
  have listed : (queryBreakdown .utc .person twoHours (some .hour) .utc {} flatPricing
      [("sk-*******-0001", "team")]).run sharedTable = .ok sharedResponse := by decide +kernel
  have member : sharedRow ∈ sharedResponse.rows := List.mem_cons_self ..
  have resolved : (resolveFilter (Dimension.column .person) (some [sharedRow.key])).run sharedTable =
      .ok (some bothKeys) := by decide +kernel
  obtain ⟨summarized, mixes, returns⟩ := drill_down_agrees keeps listed member resolved
  obtain ⟨⟨summary, answered⟩, mixed, split⟩ := returns (by decide +kernel)
  exact ⟨⟨summary, answered, summarized summary answered⟩, mixed, split, mixes mixed split⟩

/-- The row under a filter that admits only one of the two API keys. -/
def splitRow : BreakdownRow where
  key := "sk-*******-0001"
  label := "team"
  current := firstRequest
  previous := some noRequests
  trend := ⟨[1 / 10, 0], [100, 0], [10, 0], [0, 0]⟩
  mix := [⟨"m", "m", some (1 / 10), 100, 10, 0⟩]
  price := none

def splitResponse : BreakdownResponse := { sharedResponse with rows := [splitRow] }

def sharedSummary : SummaryResponse where
  bucket := .hour
  buckets := sharedResponse.buckets
  current := bothRequests
  previous := some noRequests
  series := ⟨sharedRow.trend, [1, 1]⟩

/-- A base filter that splits the API keys of one person counts fewer requests in the row than the
summary that the row's key asks for. -/
theorem drill_down_widens :
    (queryBreakdown .utc .person twoHours (some .hour) .utc { apiKeys := some ["sk-a-0001"] } flatPricing
      [("sk-*******-0001", "team")]).run sharedTable = .ok splitResponse ∧
    splitRow ∈ splitResponse.rows ∧
    (resolveFilter .apiKey (some [splitRow.key])).run sharedTable = .ok (some bothKeys) ∧
    (querySummary .utc twoHours (some .hour) .utc
      (Filters.replace { apiKeys := some ["sk-a-0001"] } .apiKey (some bothKeys))
      flatPricing).run sharedTable = .ok sharedSummary ∧
    sharedSummary.current ≠ splitRow.current := by
  refine ⟨?_, ?_, ?_, ?_, ?_⟩
  · decide +kernel
  · exact List.mem_cons_self ..
  · decide +kernel
  · decide +kernel
  · decide +kernel

end CliproxyUsage
