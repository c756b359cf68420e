import CliproxyUsage.Proofs.Totals

/-! # When the last use is the latest request

The grouped query keeps the greatest timestamp text of each cell, and only those are compared as
instants. So a total shows its latest request exactly when one of that instant has the last text of
its cell: text order is not time order across offsets and fractions.
-/

namespace CliproxyUsage

open Python Machine

variable {host : Host} {pricing : PricingMap} {aliases : List (String × String)} {window : Option Window}
  {filters : Filters} {table : Requests} {cells : List Cell}

/-- The instant of a timestamp with an explicit offset. -/
def isoInstant (text : String) : Option ℤ := do
  let dt ← fromIsoFormat text
  let offset ← dt.offset
  some (dt.wall - offset)

/-- The latest instant of some requests; none when there are none. -/
def latest (rows : List RequestRow) : Option ℤ := (rows.filterMap fun row => isoInstant row.timestamp).max?

/-- The display key of a request. -/
def RequestRow.entity (row : RequestRow) (dim : Dimension) : String := filterKey dim.column (row.column dim.column)

def ofEntity (dim : Dimension) (k : String) (rows : List RequestRow) : List RequestRow :=
  rows.filter fun row => decide (row.entity dim = k)

/-- No request of the same cell has a greater timestamp text. -/
def LastOfCell (rows : List RequestRow) (row : RequestRow) : Prop :=
  ∀ other ∈ rows, other.cellKey = row.cellKey → other.timestamp ≤ row.timestamp

instance (rows : List RequestRow) (row : RequestRow) : Decidable (LastOfCell rows row) :=
  inferInstanceAs (Decidable (∀ other ∈ rows, other.cellKey = row.cellKey → other.timestamp ≤ row.timestamp))

/-- Each entity has a request of its latest instant that is the last of its cell by text. -/
def LatestIsLast (rows : List RequestRow) : Prop :=
  ∀ dim, ∀ row ∈ rows, ∃ last ∈ rows, last.entity dim = row.entity dim ∧
    isoInstant last.timestamp = latest (ofEntity dim (row.entity dim) rows) ∧ LastOfCell rows last

private theorem le_latest {rows : List RequestRow} {row : RequestRow} {t : ℤ} (member : row ∈ rows)
    (instant : isoInstant row.timestamp = some t) : ∃ l, latest rows = some l ∧ t ≤ l := by
  have listed : t ∈ rows.filterMap fun row => isoInstant row.timestamp := List.mem_filterMap.mpr ⟨row, member, instant⟩
  cases greatest : latest rows with
  | none =>
    rw [latest, List.max?_eq_none_iff] at greatest
    rw [greatest] at listed
    contradiction
  | some l => exact ⟨l, rfl, (List.max?_eq_some_iff.mp greatest).2 t listed⟩

private theorem latest_mem {rows : List RequestRow} {l : ℤ} (greatest : latest rows = some l) :
    ∃ row ∈ rows, isoInstant row.timestamp = some l :=
  List.mem_filterMap.mp (List.max?_eq_some_iff.mp greatest).1

private theorem isoInstant_of_parseTs {text : String} {t : ℤ} (parsed : parseTs host text = .ok t)
    (explicit_ : (isoInstant text).isSome) : isoInstant text = some t := by
  rw [parseTs] at parsed
  cases read : fromIsoFormat text with
  | none => simp [read] at parsed
  | some dt =>
    cases offset : dt.offset with
    | none => simp [isoInstant, read, offset] at explicit_
    | some o =>
      simp only [read, offset] at parsed
      split at parsed
      · cases parsed
        simp [isoInstant, read, offset]
      · cases parsed

section Cells

variable (explicit_ : ∀ row ∈ table.rows, (isoInstant row.timestamp).isSome)
  (fetched : (fetchCells host window filters pricing).run table = .ok cells)

include explicit_ fetched

/-- The last use of a cell is the instant of its last request by text. -/
private theorem last_of_cell {c : Cell} (member : c ∈ cells) :
    ∃ row ∈ table.rows.filter (counted window filters), isoInstant row.timestamp = some c.lastUsed ∧
      LastOfCell (table.rows.filter (counted window filters)) row ∧ ∀ dim, row.entity dim = c.key dim := by
  obtain ⟨group, grouped, lastUsed, parsed, rfl⟩ := mem_cells fetched member
  obtain ⟨some_, members⟩ := cellGroups_members grouped
  obtain ⟨row, present, last⟩ := lastText_mem some_
  obtain ⟨stored, passes, atKey⟩ := members row present
  refine ⟨row, List.mem_filter.mpr ⟨stored, passes⟩, ?_, ?_, ?_⟩
  · rw [← last] at parsed
    exact isoInstant_of_parseTs parsed (explicit_ row stored)
  · intro other counts same
    rw [last]
    apply le_lastText
    rw [(List.mem_groupOn.mp grouped).2]
    exact List.mem_filter.mpr ⟨counts, decide_eq_true (same.trans atKey)⟩
  · intro dim
    rw [summedCell_key, ← atKey, cellKey_column, RequestRow.entity]

omit explicit_ in
/-- Every counted request has a cell. -/
private theorem cell_of_row {row : RequestRow} (counts : row ∈ table.rows.filter (counted window filters)) :
    ∃ c ∈ cells, parseTs host (lastText ((table.rows.filter (counted window filters)).filter fun other =>
      decide (other.cellKey = row.cellKey))) = .ok c.lastUsed ∧ ∀ dim, c.key dim = row.entity dim := by
  have grouped : (row.cellKey, (table.rows.filter (counted window filters)).filter fun other =>
      decide (other.cellKey = row.cellKey)) ∈ cellGroups window filters table :=
    List.mem_groupOn.mpr ⟨List.mem_map_of_mem counts, rfl⟩
  obtain ⟨c, member, built⟩ := List.value_of_mapM_ok (run_fetchCells_ok_iff.mp fetched).2 grouped
  obtain ⟨lastUsed, parsed, rfl⟩ := cellOf_ok (model_of_cellGroups grouped) built
  refine ⟨_, member, parsed, fun dim => ?_⟩
  rw [summedCell_key]
  cases dim <;> rfl

/-- A counted request that is the last of its cell by text gives the cell its last use. -/
private theorem cell_of_last {row : RequestRow} (counts : row ∈ table.rows.filter (counted window filters))
    (last : LastOfCell (table.rows.filter (counted window filters)) row) :
    ∃ c ∈ cells, isoInstant row.timestamp = some c.lastUsed ∧ ∀ dim, c.key dim = row.entity dim := by
  obtain ⟨c, member, parsed, key⟩ := cell_of_row fetched counts
  refine ⟨c, member, ?_, key⟩
  have present : row ∈ (table.rows.filter (counted window filters)).filter fun other =>
      decide (other.cellKey = row.cellKey) := List.mem_filter.mpr ⟨counts, decide_eq_true rfl⟩
  obtain ⟨other, inGroup, text⟩ := lastText_mem (List.ne_nil_of_mem present)
  obtain ⟨otherCounts, same⟩ := List.mem_filter.mp inGroup
  have equal : row.timestamp = lastText _ :=
    le_antisymm (le_lastText present) (text ▸ last other otherCounts (of_decide_eq_true same))
  rw [← equal] at parsed
  exact isoInstant_of_parseTs parsed (explicit_ row (List.mem_of_mem_filter counts))

/-- The greatest last use of the cells of an entity is its latest request, when one of that instant is the
last of its cell. -/
private theorem lastUsed_ofKey {dim : Dimension} {k : String} {last : RequestRow}
    (counts : last ∈ table.rows.filter (counted window filters)) (own : last.entity dim = k)
    (instant : isoInstant last.timestamp = latest (ofEntity dim k (table.rows.filter (counted window filters))))
    (lastOfCell : LastOfCell (table.rows.filter (counted window filters)) last) :
    ((ofKey dim k cells).map Cell.lastUsed).max? =
      latest (ofEntity dim k (table.rows.filter (counted window filters))) := by
  obtain ⟨c, member, at_, key⟩ := cell_of_last explicit_ fetched counts lastOfCell
  rw [← instant, at_]
  refine List.max?_eq_some_iff.mpr ⟨?_, ?_⟩
  · exact List.mem_map_of_mem (List.mem_filter.mpr ⟨member, decide_eq_true ((key dim).trans own)⟩)
  · intro t listed
    obtain ⟨other, inKey, rfl⟩ := List.mem_map.mp listed
    obtain ⟨otherMember, otherKey⟩ := List.mem_filter.mp inKey
    obtain ⟨row, counts', at', _, entity⟩ := last_of_cell explicit_ fetched otherMember
    have among : row ∈ ofEntity dim k (table.rows.filter (counted window filters)) :=
      List.mem_filter.mpr ⟨counts', decide_eq_true ((entity dim).trans (of_decide_eq_true otherKey))⟩
    obtain ⟨l, greatest, upTo⟩ := le_latest among at'
    rw [← instant, at_, Option.some.injEq] at greatest
    omega

/-- The rows of a breakdown show the latest requests exactly when those are the last of their cells. -/
private theorem rows_latest_iff :
    (∀ dim, ∀ c ∈ cells, ((ofKey dim (c.key dim) cells).map Cell.lastUsed).max? =
        latest (ofEntity dim (c.key dim) (table.rows.filter (counted window filters)))) ↔
      LatestIsLast (table.rows.filter (counted window filters)) := by
  constructor
  · intro shows dim row counts
    obtain ⟨c, member, _, key⟩ := cell_of_row fetched counts
    have shown := shows dim c member
    rw [key dim] at shown
    cases greatest : ((ofKey dim (row.entity dim) cells).map Cell.lastUsed).max? with
    | none =>
      rw [List.max?_eq_none_iff, List.map_eq_nil_iff] at greatest
      have here : c ∈ ofKey dim (row.entity dim) cells := List.mem_filter.mpr ⟨member, decide_eq_true (key dim)⟩
      rw [greatest] at here
      contradiction
    | some l =>
      obtain ⟨other, inKey, used⟩ := List.mem_map.mp (List.max?_eq_some_iff.mp greatest).1
      obtain ⟨otherMember, otherKey⟩ := List.mem_filter.mp inKey
      obtain ⟨last, lastCounts, at_, lastOfCell, entity⟩ := last_of_cell explicit_ fetched otherMember
      refine ⟨last, lastCounts, (entity dim).trans (of_decide_eq_true otherKey), ?_, lastOfCell⟩
      rw [← shown, greatest, at_, used]
  · intro condition dim c member
    obtain ⟨row, counts, _, _, entity⟩ := last_of_cell explicit_ fetched member
    obtain ⟨last, lastCounts, own, instant, lastOfCell⟩ := condition dim row counts
    rw [entity dim] at own instant
    exact lastUsed_ofKey explicit_ fetched lastCounts own instant lastOfCell

/-- Then the whole shows the latest request too. -/
private theorem whole_latest (condition : LatestIsLast (table.rows.filter (counted window filters))) :
    (cells.map Cell.lastUsed).max? = latest (table.rows.filter (counted window filters)) := by
  cases greatest : latest (table.rows.filter (counted window filters)) with
  | none =>
    rw [List.max?_eq_none_iff, List.map_eq_nil_iff]
    refine List.eq_nil_iff_forall_not_mem.mpr fun c member => ?_
    obtain ⟨row, counts, at_, _⟩ := last_of_cell explicit_ fetched member
    obtain ⟨l, some_, _⟩ := le_latest counts at_
    rw [greatest] at some_
    cases some_
  | some l =>
    obtain ⟨row, counts, at_⟩ := latest_mem greatest
    obtain ⟨last, lastCounts, own, instant, lastOfCell⟩ := condition .person row counts
    obtain ⟨c, member, used, _⟩ := cell_of_last explicit_ fetched lastCounts lastOfCell
    have upTo : ∀ other ∈ cells, other.lastUsed ≤ l := by
      intro other otherMember
      obtain ⟨row', counts', at', _⟩ := last_of_cell explicit_ fetched otherMember
      obtain ⟨l', same, order⟩ := le_latest counts' at'
      rw [greatest, Option.some.injEq] at same
      omega
    have among : row ∈ ofEntity .person (row.entity .person) (table.rows.filter (counted window filters)) :=
      List.mem_filter.mpr ⟨counts, decide_eq_true rfl⟩
    obtain ⟨l', greatest', order⟩ := le_latest among at_
    rw [← instant, used, Option.some.injEq] at greatest'
    refine List.max?_eq_some_iff.mpr ⟨?_, ?_⟩
    · have equal : c.lastUsed = l := le_antisymm (upTo c member) (greatest' ▸ order)
      exact equal ▸ List.mem_map_of_mem member
    · intro t listed
      obtain ⟨other, otherMember, rfl⟩ := List.mem_map.mp listed
      exact upTo other otherMember

end Cells

/-- Every total shows its latest request if and only if, for every entity, a request of its latest instant
is the last of its cell by text. -/
theorem last_used_is_latest {window : Window} {requested : Option Bucket} {tz : Zone} {summary : SummaryResponse}
    {breakdown : Dimension → BreakdownResponse}
    (explicit_ : ∀ row ∈ table.rows, (isoInstant row.timestamp).isSome)
    (summed : (querySummary host window requested tz filters pricing).run table = .ok summary)
    (listed : ∀ dim, (queryBreakdown host dim window requested tz filters pricing aliases).run table =
      .ok (breakdown dim)) :
    (summary.current.lastUsed = latest (table.rows.filter (counted (some window) filters)) ∧
      ∀ dim, ∀ row ∈ (breakdown dim).rows,
        row.current.lastUsed = latest (ofEntity dim row.key (table.rows.filter (counted (some window) filters)))) ↔
      LatestIsLast (table.rows.filter (counted (some window) filters)) := by
  obtain ⟨_, _, cells, fetched, _, _, rfl⟩ := run_querySummary_ok_iff.mp summed
  have rows (dim : Dimension) : (∀ row ∈ (breakdown dim).rows,
        row.current.lastUsed = latest (ofEntity dim row.key (table.rows.filter (counted (some window) filters)))) ↔
      ∀ c ∈ cells, ((ofKey dim (c.key dim) cells).map Cell.lastUsed).max? =
        latest (ofEntity dim (c.key dim) (table.rows.filter (counted (some window) filters))) := by
    obtain ⟨_, _, cells', fetched', _, _, made⟩ := run_queryBreakdown_ok_iff.mp (listed dim)
    obtain rfl : cells = cells' := Except.ok.inj (fetched.symm.trans fetched')
    rw [← made]
    constructor
    · intro shows c member
      obtain ⟨row, inRows, key⟩ := exists_row member
      have shown := shows row inRows
      rw [(mem_breakdownRows inRows).2.1, key] at shown
      rw [← lastUsed_foldl]
      exact shown
    · intro shows row inRows
      obtain ⟨⟨c, member, key⟩, current, _⟩ := mem_breakdownRows inRows
      rw [current, ← key, ← shows c member, ← lastUsed_foldl]
      rfl
  rw [forall_congr' rows, rows_latest_iff explicit_ fetched]
  constructor
  · exact And.right
  · intro condition
    refine ⟨?_, condition⟩
    rw [← whole_latest explicit_ fetched condition, ← lastUsed_foldl]
    rfl

def usedRow (timestamp : String) : RequestRow :=
  ⟨timestamp, "sk-a-0001", "m", "dev@example.com", "0", 1200, 100, 10, 0, 0, 110, 0⟩

/-- The first day of March 2026. -/
def firstOfMarch : Window := ⟨some 1772323200000000, 1772409600000000⟩

/-- Two offsets, in different slices. -/
def apartTable : Requests := ⟨[usedRow "2026-03-01T10:05:00Z", usedRow "2026-03-01T12:01:00+01:00"], by decide⟩

theorem last_used_is_latest_apart :
    ∃ (summary : SummaryResponse) (breakdown : Dimension → BreakdownResponse),
      (querySummary .utc firstOfMarch (some .hour) .utc {} .empty).run apartTable = .ok summary ∧
      (∀ dim, (queryBreakdown .utc dim firstOfMarch (some .hour) .utc {} .empty []).run apartTable =
        .ok (breakdown dim)) ∧
      summary.current.lastUsed = latest (apartTable.rows.filter (counted (some firstOfMarch) {})) ∧
      ∀ dim, ∀ row ∈ (breakdown dim).rows,
        row.current.lastUsed = latest (ofEntity dim row.key (apartTable.rows.filter (counted (some firstOfMarch) {}))) := by
  have returns (dim : Dimension) : ∃ response,
      (queryBreakdown .utc dim firstOfMarch (some .hour) .utc {} .empty []).run apartTable = .ok response := by
    apply Except.exists_ok
    cases dim <;> decide +kernel
  choose breakdown listed using returns
  obtain ⟨summary, summed⟩ : ∃ response,
      (querySummary .utc firstOfMarch (some .hour) .utc {} .empty).run apartTable = .ok response := by
    apply Except.exists_ok
    decide +kernel
  have explicit_ : ∀ row ∈ apartTable.rows, (isoInstant row.timestamp).isSome := by decide +kernel
  have condition : LatestIsLast (apartTable.rows.filter (counted (some firstOfMarch) {})) := by
    intro dim
    cases dim <;> decide +kernel
  obtain ⟨whole, each⟩ := (last_used_is_latest explicit_ summed listed).mpr condition
  exact ⟨summary, breakdown, summed, listed, whole, each⟩

/-- Two offsets in one slice: the later text is four minutes earlier. -/
def offsetsTable : Requests := ⟨[usedRow "2026-03-01T10:05:00Z", usedRow "2026-03-01T11:01:00+01:00"], by decide⟩

/-- Two fractions in one second: the later text is half a second earlier. -/
def fractionsTable : Requests := ⟨[usedRow "2026-03-01T10:05:00.5Z", usedRow "2026-03-01T10:05:00Z"], by decide⟩

/-- The last uses that a summary and the rows of a breakdown show. -/
def shownLastUses (dim : Dimension) (table : Requests) : Option (Option ℤ × List (Option ℤ)) := do
  let summary ← ((querySummary .utc firstOfMarch (some .hour) .utc {} .empty).run table).toOption
  let breakdown ← ((queryBreakdown .utc dim firstOfMarch (some .hour) .utc {} .empty []).run table).toOption
  some (summary.current.lastUsed, breakdown.rows.map (·.current.lastUsed))

/-- Within one cell the greatest text wins, four minutes or half a second before the latest request. -/
theorem last_used_is_stale :
    ((∀ row ∈ offsetsTable.rows, (isoInstant row.timestamp).isSome) ∧
      shownLastUses .person offsetsTable = some (some 1772359260000000, [some 1772359260000000]) ∧
      latest (offsetsTable.rows.filter (counted (some firstOfMarch) {})) = some 1772359500000000) ∧
    (∀ row ∈ fractionsTable.rows, (isoInstant row.timestamp).isSome) ∧
      shownLastUses .person fractionsTable = some (some 1772359500000000, [some 1772359500000000]) ∧
      latest (fractionsTable.rows.filter (counted (some firstOfMarch) {})) = some 1772359500500000 := by
  refine ⟨⟨?_, ?_, ?_⟩, ?_, ?_, ?_⟩ <;> decide +kernel

end CliproxyUsage
