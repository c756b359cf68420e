import CliproxyUsage.Proofs.SameCells
import CliproxyUsage.Soundness.Store

/-! # What the dashboard counts of what was collected

From the popped batches to the totals on display: whatever runs of the collector came before, a summary
adds up each delivered record once, under its first timestamp, and a breakdown splits the same records by
the keys they are shown under. Further runs add to a total what they deliver anew, and nothing else.
-/

namespace CliproxyUsage

open Python Machine

variable {host : Host} {pricing : PricingMap} {aliases : List (String × String)}

/-- The key that a request is shown under. -/
def RequestRow.key (row : RequestRow) (dim : Dimension) : String := filterKey dim.column (row.column dim.column)

/-- The keys that a request for a range selects of a dimension. -/
def RangeParams.selection (rng : RangeParams) : Dimension → Option (List String)
  | .person => rng.people
  | .model => rng.models
  | .credential => rng.credentials

/-- The record lies in the window of the range, and is shown under selected keys only. -/
def RangeParams.admits (rng : RangeParams) (row : RequestRow) : Bool :=
  rng.window.admits row &&
    ((rng.selection .person).all fun keys => decide (row.key .person ∈ keys)) &&
    ((rng.selection .model).all fun keys => decide (row.key .model ∈ keys)) &&
    ((rng.selection .credential).all fun keys => decide (row.key .credential ∈ keys))

section Queries

variable {rng : RangeParams} {bucket : Option Bucket} {table : Requests}

/-- Resolved filters count the stored records that the range admits. -/
theorem counted_admits {filters : Filters} (resolved : rng.filters.run table = .ok filters) {row : RequestRow}
    (stored : row ∈ table.rows) : counted (some rng.window) filters row = rng.admits row := by
  simp only [RangeParams.filters, Script.run_bind, Script.run_pure, Except.bind_eq_ok, Except.ok.injEq] at resolved
  obtain ⟨apiKeys, first, models, second, sources, third, rfl⟩ := resolved
  rw [counted, admitsColumn_resolved first rfl stored, admitsColumn_resolved second rfl stored,
    admitsColumn_resolved third rfl stored]
  rfl

theorem summary_measure {response : SummaryResponse}
    (served : (summary host pricing rng bucket).run table = .ok response) (m : Measure) :
    response.current.measure m = ((table.rows.filter rng.admits).map (·.measure host pricing m)).sum := by
  simp only [summary, Script.run_bind, Except.bind_eq_ok] at served
  obtain ⟨filters, resolved, served⟩ := served
  obtain ⟨ax, _, cells, fetched, previous, _, rfl⟩ := run_querySummary_ok_iff.mp served
  rw [totals_measure fun c member => priced_of_mem fetched member, sum_cells fetched,
    List.filter_congr fun row stored => counted_admits resolved stored]

private theorem breakdown_cells {dim : Dimension} {response : BreakdownResponse}
    (served : (breakdown host pricing aliases dim rng bucket).run table = .ok response) :
    ∃ filters cells n position previous, rng.filters.run table = .ok filters ∧
      (fetchCells host (some rng.window) filters pricing).run table = .ok cells ∧
      response.rows = breakdownRows dim aliases pricing.nonEmpty n position cells previous := by
  simp only [breakdown, Script.run_bind, Except.bind_eq_ok] at served
  obtain ⟨filters, resolved, served⟩ := served
  obtain ⟨ax, _, cells, fetched, previous, _, rfl⟩ := run_queryBreakdown_ok_iff.mp served
  exact ⟨filters, cells, _, _, _, resolved, fetched, rfl⟩

/-- The rows of a breakdown split the admitted records by their key. -/
theorem breakdown_splits {dim : Dimension} {response : BreakdownResponse}
    (served : (breakdown host pricing aliases dim rng bucket).run table = .ok response) :
    (response.rows.map BreakdownRow.key).Nodup ∧
    (∀ key, key ∈ response.rows.map BreakdownRow.key ↔ ∃ row ∈ table.rows.filter rng.admits, row.key dim = key) ∧
    ∀ row ∈ response.rows, ∀ m, row.current.measure m =
      (((table.rows.filter rng.admits).filter fun stored => decide (stored.key dim = row.key)).map
        (·.measure host pricing m)).sum := by
  obtain ⟨filters, cells, n, position, previous, resolved, fetched, rows⟩ := breakdown_cells served
  have admitted : table.rows.filter (counted (some rng.window) filters) = table.rows.filter rng.admits :=
    List.filter_congr fun row stored => counted_admits resolved stored
  have keyOf (row : RequestRow) : row.cellKey.label.key dim = row.key dim := by cases dim <;> rfl
  rw [rows]
  refine ⟨?_, ?_, ?_⟩
  · rw [breakdownRows, List.map_map]
    apply ((ranked_perm _).map Prod.fst).nodup_iff.mpr
    rw [group, List.accumulate_eq_groupOn, List.map_map]
    exact List.groupOn_keys_nodup _ _
  · intro key
    rw [← admitted, List.mem_map]
    constructor
    · rintro ⟨row, member, rfl⟩
      obtain ⟨c, present, same⟩ := (mem_breakdownRows member).1
      obtain ⟨stored, counts, label⟩ := (exists_label_iff fetched c.label).mp ⟨c, present, rfl⟩
      refine ⟨stored, counts, ?_⟩
      rw [← keyOf, label, key_label, same]
    · rintro ⟨stored, counts, rfl⟩
      obtain ⟨c, present, label⟩ := (exists_label_iff fetched stored.cellKey.label).mpr ⟨stored, counts, rfl⟩
      obtain ⟨row, member, same⟩ := @exists_row dim aliases pricing.nonEmpty n position cells previous c present
      refine ⟨row, member, ?_⟩
      rw [same, ← key_label, label, keyOf]
  · intro row member m
    have own := sum_cells_filter fetched (fun label => decide (label.key dim = row.key)) m
    simp only [key_label, keyOf] at own
    rw [(mem_breakdownRows member).2.1, totals_measure, ← admitted, ← own]
    · rfl
    · exact fun c present => priced_of_mem fetched (mem_of_ofKey present)

end Queries

namespace Collect

/-- The records that some runs delivered: of those with one timestamp the first. -/
def delivered (history : List Run) : List RequestRow :=
  List.firsts RequestRow.timestamp (batches (reported history))

theorem rows_stored (history : List Run) : (stored history).rows = delivered history :=
  (firstRecords_stored history).rows

/-- What later runs deliver anew. -/
def fresh (history later : List Run) : List RequestRow := (delivered (history ++ later)).drop (delivered history).length

theorem delivered_append (history later : List Run) :
    delivered (history ++ later) = delivered history ++ fresh history later := by
  have kept := (store_invariant (history ++ later)).appends history later rfl
  rw [rows_stored, rows_stored] at kept
  rw [fresh]
  exact (List.prefix_iff_eq_append.mp kept).symm

/-- The totals that are served after some runs are sums over what the runs delivered: each record counts once,
in the summary and in the one row of its key, and later runs add what they deliver anew. -/
theorem delivered_records_count_once (host : Host) (pricing : PricingMap) (aliases : List (String × String))
    (rng : RangeParams) (bucket : Option Bucket) (history : List Run) :
    (∀ response, (summary host pricing rng bucket).run (stored history) = .ok response → ∀ m,
      response.current.measure m = (((delivered history).filter rng.admits).map (·.measure host pricing m)).sum) ∧
    (∀ dim response, (breakdown host pricing aliases dim rng bucket).run (stored history) = .ok response →
      (response.rows.map BreakdownRow.key).Nodup ∧
      (∀ key, key ∈ response.rows.map BreakdownRow.key ↔
        ∃ record ∈ (delivered history).filter rng.admits, record.key dim = key) ∧
      ∀ row ∈ response.rows, ∀ m, row.current.measure m =
        ((((delivered history).filter rng.admits).filter fun record => decide (record.key dim = row.key)).map
          (·.measure host pricing m)).sum) ∧
    ∀ later before after, (summary host pricing rng bucket).run (stored history) = .ok before →
      (summary host pricing rng bucket).run (stored (history ++ later)) = .ok after → ∀ m,
        after.current.measure m =
          before.current.measure m + (((fresh history later).filter rng.admits).map (·.measure host pricing m)).sum := by
  refine ⟨?_, ?_, ?_⟩
  · intro response served m
    rw [summary_measure served, rows_stored]
  · intro dim response served
    rw [← rows_stored]
    exact breakdown_splits served
  · intro later before after served served' m
    rw [summary_measure served, summary_measure served', rows_stored, rows_stored, delivered_append,
      List.filter_append, List.map_append, List.sum_append]

/-- The second run pops one record anew, and one that the first run has popped. -/
def firstRun : Run := ⟨.ok (), .ok ⟨200, "", .ok (.list [queued "2026-03-01T10:00:00Z" "gpt-5" 900])⟩⟩

def secondRun : Run :=
  ⟨.ok (), .ok ⟨200, "", .ok (.list [queued "2026-03-01T10:00:00Z" "gpt-5" 900,
    queued "2026-03-01T10:30:00Z" "gpt-4" 700])⟩⟩

/-- From 9:00 to 11:00 on the day of the runs, for everyone. -/
def morning : RangeParams := { window := ⟨some 1772355600000000, 1772362800000000⟩, tz := .utc }

theorem delivered_records_count_once_two :
    ∃ before after, (summary .utc .empty morning none).run (stored [firstRun]) = .ok before ∧
      (summary .utc .empty morning none).run (stored ([firstRun] ++ [secondRun])) = .ok after ∧
      after.current.measure .requests = before.current.measure .requests +
        (((fresh [firstRun] [secondRun]).filter morning.admits).map (·.measure .utc .empty .requests)).sum := by
  obtain ⟨before, served⟩ : ∃ before, (summary .utc .empty morning none).run (stored [firstRun]) = .ok before :=
    Except.exists_ok (by decide +kernel)
  obtain ⟨after, served'⟩ :
      ∃ after, (summary .utc .empty morning none).run (stored ([firstRun] ++ [secondRun])) = .ok after :=
    Except.exists_ok (by decide +kernel)
  have grown := (delivered_records_count_once .utc .empty [] morning none [firstRun]).2.2 [secondRun] before after
  exact ⟨before, after, served, served', grown served served' .requests⟩

-- The record that is popped twice is delivered once.
example : (fresh [firstRun] [secondRun]).map RequestRow.timestamp = ["2026-03-01T10:30:00Z"] := by decide +kernel

end Collect

end CliproxyUsage
