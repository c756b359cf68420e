import CliproxyUsage.Machine.Core.Transcript
import CliproxyUsage.Soundness.Collection
import Mathlib.Algebra.BigOperators.Group.List.Basic

/-! # What runs of the collector leave in the store

Over any runs from an empty database, the table holds the first record of each timestamp among the
batches of the successful runs, and the reported counts add up to its rows.
-/

namespace CliproxyUsage.Collect

open Python Sqlite Machine

/-- The records of the popped batch, when all of its elements are valid. -/
def Run.records (run : Run) : List RequestRecord :=
  match popUsageRecords run.reply with
  | .error _ => []
  | .ok elements => match iterRecords elements with
    | .error _ => []
    | .ok records => records

/-- The rows of the successful batches of some runs, in their order. -/
def batches (log : List (Run × Except PyError Report)) : List RequestRow :=
  log.flatMap fun entry => if (countOf entry.2).isSome then entry.1.records.map RequestRecord.row else []

theorem batches_append (first second : List (Run × Except PyError Report)) :
    batches (first ++ second) = batches first ++ batches second := List.flatMap_append

/-- The table after some runs from an empty database. -/
def stored (history : List Run) : Requests := (transcript runOnce .empty history).1

/-- The same runs, each with its report. -/
def reported (history : List Run) : List (Run × Except PyError Report) := (transcript runOnce .empty history).2

/-- An element of the batch is no valid record. -/
def Run.Malformed (run : Run) : Prop :=
  ∃ status text items, run.reply = .ok ⟨status, text, .ok (.list items)⟩ ∧
    ∃ item ∈ items, ¬∃ record, IsRecord item record

/-- The batch is valid, and its insert raises. -/
def Run.Raises (run : Run) (table : Requests) : Prop :=
  ∃ elements records error, popUsageRecords run.reply = .ok elements ∧ iterRecords elements = .ok records ∧
    insertRecords table records = .error error

section Once

variable {run : Run} {table : Requests} {elements : List Object} {records : List RequestRecord}

theorem Run.Accepts.records_eq (accepts : run.Accepts elements records) : run.records = records := by
  simp only [Run.records, accepts.popped, accepts.parsed]

theorem accepts_of_succeeds (succeeds : countOf (runOnce table run).2 ≠ none) :
    ∃ elements records, run.Accepts elements records := by
  by_contra rejects
  exact succeeds (runOnce_rejects rejects table).2

/-- An accepted batch has a record for every element of the array. -/
theorem not_malformed (accepts : run.Accepts elements records) : ¬run.Malformed := by
  rintro ⟨status, text, items, replied, item, member, invalid⟩
  have popped := accepts.popped
  rw [replied, popUsageRecords] at popped
  simp only at popped
  split_ifs at popped
  have each := forall₂_isRecord.mpr ⟨elements, popped, accepts.parsed⟩
  have valid : List.Forall₂ (fun item record => (∃ record, IsRecord item record) ∧ IsRecord item record) items records :=
    each.imp fun item record valid => ⟨⟨record, valid⟩, valid⟩
  exact invalid (((List.forall₂_and_left items records).mp valid).1 item member)

theorem not_raises (accepts : run.Accepts elements records) (table : Requests) : ¬run.Raises table := by
  rintro ⟨elements', records', error, popped, parsed, raised⟩
  rw [accepts.popped] at popped
  cases popped
  rw [accepts.parsed] at parsed
  cases parsed
  obtain ⟨after, inserted, _⟩ := foldlM_insertOrIgnore (List.forall_mem_map.mpr accepts.storable) table
  simp [insertRecords, inserted, Except.bind_def, Except.bind_ok] at raised

end Once

/-- The invariant of the runs. -/
structure FirstRecords (log : List (Run × Except PyError Report)) (table : Requests) : Prop where
  rows : table.rows = List.firsts RequestRow.timestamp (batches log)
  counts : (log.map fun entry => (countOf entry.2).getD 0).sum = table.rows.length

theorem firstRecords_step {log : List (Run × Except PyError Report)} {table : Requests}
    (held : FirstRecords log table) (run : Run) :
    FirstRecords (log ++ [(run, (runOnce table run).2)]) (runOnce table run).1 := by
  by_cases accepted : ∃ elements records, run.Accepts elements records
  · obtain ⟨elements, records, accepts⟩ := accepted
    obtain ⟨after, ran, rows, _⟩ := runOnce_accepts accepts table
    have grown := (@List.prefix_foldl_insertFirst _ _ _ RequestRow.timestamp table.rows
      (records.map RequestRecord.row)).length_le
    rw [← rows] at grown
    constructor
    · rw [batches_append, List.firsts_append, ← held.rows, ran, rows]
      simp [batches, countOf, accepts.records_eq]
    · rw [List.map_append, List.sum_append, held.counts, ran]
      simp only [countOf, List.map_singleton, List.sum_singleton, Option.getD_some]
      omega
  · obtain ⟨same, failed⟩ := runOnce_rejects accepted table
    rw [same]
    constructor
    · simp [batches, failed, held.rows]
    · simp [failed, held.counts]

theorem firstRecords_stored (history : List Run) : FirstRecords (reported history) (stored history) :=
  transcript_invariant FirstRecords ⟨rfl, rfl⟩ (fun _ _ run held => firstRecords_step held run) history

/-- What any runs from an empty database keep. Under each timestamp stands exactly the first record of the
successful batches; later runs only append; a run that is malformed, raises or fails otherwise changes
nothing; the reported counts add up to the rows; and replaying a successful batch reports 0 and changes
nothing. -/
structure StoreInvariant (history : List Run) : Prop where
  first : ∀ timestamp, (stored history).rows.filter (fun row => decide (row.timestamp = timestamp)) =
    (firstAt timestamp (batches (reported history))).toList
  appends : ∀ earlier later, history = earlier ++ later → (stored earlier).rows <+: (stored history).rows
  fails : ∀ earlier run later, history = earlier ++ run :: later → run.Malformed ∨ run.Raises (stored earlier) →
    countOf (runOnce (stored earlier) run).2 = none
  unchanged : ∀ earlier run later, history = earlier ++ run :: later →
    countOf (runOnce (stored earlier) run).2 = none → stored (earlier ++ [run]) = stored earlier
  counts : ((reported history).map fun entry => (countOf entry.2).getD 0).sum = (stored history).rows.length
  replays : ∀ earlier run later, history = earlier ++ run :: later →
    countOf (runOnce (stored earlier) run).2 ≠ none →
    runOnce (stored history) run = (stored history, .ok (.inserted 0 run.records.length))

theorem stored_append (first second : List Run) :
    stored (first ++ second) = (transcript runOnce (stored first) second).1 := by
  rw [stored, transcript_append, stored]

theorem stored_concat (history : List Run) (run : Run) :
    stored (history ++ [run]) = (runOnce (stored history) run).1 := stored_append history [run]

theorem reported_append (first second : List Run) : reported (first ++ second) =
    reported first ++ (transcript runOnce (stored first) second).2 := by
  rw [reported, transcript_append, reported, stored]

/-- Every sequence of runs from an empty database, whatever their configurations and replies, keeps the store
invariant. -/
theorem store_invariant (history : List Run) : StoreInvariant history := by
  have held := firstRecords_stored history
  constructor
  case first =>
    intro timestamp
    rw [held.rows, List.filter_firsts, firstAt]
  case appends =>
    rintro earlier later rfl
    rw [held.rows, (firstRecords_stored earlier).rows, reported_append, batches_append, List.firsts_append]
    exact List.prefix_foldl_insertFirst ..
  case fails =>
    intro earlier run later _ fault
    by_contra succeeds
    obtain ⟨elements, records, accepts⟩ := accepts_of_succeeds succeeds
    rcases fault with malformed | raises
    · exact not_malformed accepts malformed
    · exact not_raises accepts _ raises
  case unchanged =>
    intro earlier run later _ fails
    rw [stored_concat]
    apply (runOnce_rejects ?_ _).1
    rintro ⟨elements, records, accepts⟩
    obtain ⟨after, ran, _⟩ := runOnce_accepts accepts (stored earlier)
    rw [ran] at fails
    cases fails
  case counts => exact held.counts
  case replays =>
    rintro earlier run later rfl succeeds
    obtain ⟨elements, records, accepts⟩ := accepts_of_succeeds succeeds
    obtain ⟨after, ran, rows, _⟩ := runOnce_accepts accepts (stored (earlier ++ run :: later))
    -- The rows of the batch have been among the first ones since the run.
    have known : ∀ row ∈ records.map RequestRecord.row,
        row.timestamp ∈ (stored (earlier ++ run :: later)).rows.map RequestRow.timestamp := by
      intro row member
      rw [held.rows, List.mem_keys_firsts]
      apply List.mem_map_of_mem
      rw [reported_append, batches_append, List.mem_append]
      refine .inr (List.mem_flatMap.mpr ⟨_, List.mem_cons_self .., ?_⟩)
      rwa [if_pos (Option.isSome_iff_ne_none.mpr succeeds), accepts.records_eq]
    rw [List.foldl_insertFirst_known known] at rows
    have same : after = stored (earlier ++ run :: later) := Requests.ext rows
    have length := (iterRecords_ok_iff.mp accepts.parsed).length_eq
    rw [ran, same, Nat.sub_self, accepts.records_eq, length]

end CliproxyUsage.Collect
