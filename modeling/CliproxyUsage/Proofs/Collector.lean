import CliproxyUsage.Model.Collector
import CliproxyUsage.ToMathlib.ListFirsts
import Mathlib.Data.List.Forall2
import Mathlib.Data.List.Zip

/-! # What a batch does to the table

The rows of a batch are inserted one after another, and the first row of each timestamp stays. A
batch with a row that cannot be inserted changes nothing.
-/

namespace CliproxyUsage.Collect

open Python Sqlite

/-- The row can be inserted, or ignored. -/
def Storable (row : RequestRow) : Prop := bindable row = true ∧ isCurrentTime row.timestamp = false

instance (row : RequestRow) : Decidable (Storable row) := inferInstanceAs (Decidable (_ ∧ _))

/-- The first row of a timestamp. -/
def firstAt (timestamp : String) (rows : List RequestRow) : Option RequestRow :=
  rows.find? fun row => decide (row.timestamp = timestamp)

theorem firstAt_mem {timestamp : String} {rows : List RequestRow} {row : RequestRow}
    (found : firstAt timestamp rows = some row) : row ∈ rows ∧ row.timestamp = timestamp :=
  ⟨List.mem_of_find?_eq_some found, by simpa using List.find?_some found⟩

theorem firstAt_append_congr {first second rest : List RequestRow} {timestamp : String}
    (same : firstAt timestamp first = firstAt timestamp second) :
    firstAt timestamp (first ++ rest) = firstAt timestamp (second ++ rest) := by
  simp only [firstAt, List.find?_append] at same ⊢
  rw [same]

/-- An insertion that succeeds appends the row, or ignores it when its timestamp is taken. -/
theorem insertOrIgnore_ok {table after : Requests} {row : RequestRow}
    (inserted : insertOrIgnore table row = .ok after) :
    Storable row ∧
      ((∃ old ∈ table.rows, old.timestamp = row.timestamp ∧ after = table) ∨
        (row.timestamp ∉ table.rows.map RequestRow.timestamp ∧ after.rows = table.rows ++ [row])) := by
  rw [insertOrIgnore] at inserted
  split_ifs at inserted with unbindable current known
  · cases inserted
    obtain ⟨old, stored, same⟩ := List.mem_map.mp known
    exact ⟨⟨by simpa using unbindable, by simpa using current⟩, .inl ⟨old, stored, same, rfl⟩⟩
  · cases inserted
    exact ⟨⟨by simpa using unbindable, by simpa using current⟩, .inr ⟨known, rfl⟩⟩

theorem insertOrIgnore_storable {table : Requests} {row : RequestRow} (storable : Storable row) :
    ∃ after, insertOrIgnore table row = .ok after := by
  obtain ⟨bound, fixed⟩ := storable
  rw [insertOrIgnore, if_neg (by simp [bound]), if_neg (by simp [fixed])]
  split_ifs
  · exact ⟨_, rfl⟩
  · exact ⟨_, rfl⟩

/-- An insertion that succeeds keeps the first row of each timestamp. -/
theorem rows_insertOrIgnore {table after : Requests} {row : RequestRow}
    (inserted : insertOrIgnore table row = .ok after) :
    after.rows = List.insertFirst RequestRow.timestamp table.rows row := by
  obtain ⟨_, ⟨old, stored, same, rfl⟩ | ⟨fresh, appended⟩⟩ := insertOrIgnore_ok inserted
  · rw [List.insertFirst, if_pos (same ▸ List.mem_map_of_mem stored)]
  · rw [List.insertFirst, if_neg fresh, appended]

theorem rows_foldlM_insertOrIgnore {rows : List RequestRow} {table after : Requests}
    (inserted : rows.foldlM insertOrIgnore table = .ok after) :
    after.rows = rows.foldl (List.insertFirst RequestRow.timestamp) table.rows := by
  induction rows generalizing table with
  | nil =>
    cases inserted
    rfl
  | cons row rest ih =>
    rw [List.foldlM_cons, Except.bind_def, Except.bind_eq_ok] at inserted
    obtain ⟨middle, first, rested⟩ := inserted
    rw [ih rested, rows_insertOrIgnore first, List.foldl_cons]

/-- The statements change the open transaction, and count what they add to it. -/
theorem executemany_ok {rows : List RequestRow} {conn : Connection} {after : Requests}
    (inserted : rows.foldlM insertOrIgnore conn.table = .ok after) :
    conn.executemany rows =
      (⟨conn.committed, after, conn.totalChanges + (after.rows.length - conn.table.rows.length)⟩, .ok ()) := by
  induction rows generalizing conn with
  | nil =>
    cases inserted
    simp [Connection.executemany]
  | cons row rest ih =>
    rw [List.foldlM_cons, Except.bind_def, Except.bind_eq_ok] at inserted
    obtain ⟨middle, first, rested⟩ := inserted
    rw [Connection.executemany, first]
    change Connection.executemany ⟨conn.committed, middle, _⟩ rest = _
    rw [@ih ⟨conn.committed, middle, _⟩ rested]
    have later := (@List.prefix_foldl_insertFirst _ _ _ RequestRow.timestamp middle.rows rest).length_le
    rw [← rows_foldlM_insertOrIgnore rested] at later
    have here := congrArg List.length (rows_insertOrIgnore first)
    rw [List.insertFirst] at here
    split at here
    · next known =>
      rw [if_pos known]
      simp only [Prod.mk.injEq, Connection.mk.injEq, true_and, and_true]
      omega
    · next fresh =>
      rw [if_neg fresh]
      rw [List.length_append, List.length_singleton] at here
      simp only [Prod.mk.injEq, Connection.mk.injEq, true_and, and_true]
      omega

theorem executemany_error {rows : List RequestRow} {conn : Connection} {error : PyError}
    (raised : rows.foldlM insertOrIgnore conn.table = .error error) :
    (conn.executemany rows).1.committed = conn.committed ∧ (conn.executemany rows).2 = .error error := by
  induction rows generalizing conn with
  | nil => cases raised
  | cons row rest ih =>
    rw [List.foldlM_cons] at raised
    rw [Connection.executemany]
    cases first : insertOrIgnore conn.table row with
    | error other =>
      rw [first] at raised
      cases raised
      exact ⟨rfl, rfl⟩
    | ok middle =>
      rw [first] at raised
      exact @ih ⟨conn.committed, middle, _⟩ raised

/-- The transaction commits what `insertRecords` leaves and counts, or rolls back to what was committed. -/
theorem insertRecords_transaction {conn : Connection} (idle : conn.table = conn.committed)
    (records : List RequestRecord) :
    match insertRecords conn.committed records with
    | .ok (inserted, after) =>
      conn.insertRecords records = (⟨after, after, conn.totalChanges + inserted⟩, .ok inserted)
    | .error error =>
      (conn.insertRecords records).1.table = conn.committed ∧
        (conn.insertRecords records).1.committed = conn.committed ∧ (conn.insertRecords records).2 = .error error := by
  rw [← idle, insertRecords]
  cases inserted : (records.map RequestRecord.row).foldlM insertOrIgnore conn.table with
  | error error =>
    obtain ⟨committed, raised⟩ := executemany_error inserted
    have body : conn.executemany (records.map RequestRecord.row) =
        ((conn.executemany (records.map RequestRecord.row)).1, .error error) := by rw [← raised]
    simp only [Except.bind_def, Except.bind_error, Connection.insertRecords, Connection.transaction]
    rw [body]
    simp [committed, idle]
  | ok after =>
    simp only [Except.bind_def, Except.bind_ok, Connection.insertRecords, Connection.transaction,
      executemany_ok inserted, Prod.mk.injEq, true_and]
    rw [Nat.add_sub_cancel_left]

/-- One insertion keeps the first row of every timestamp. -/
theorem firstAt_insertOrIgnore {table after : Requests} {row : RequestRow}
    (inserted : insertOrIgnore table row = .ok after) (timestamp : String) :
    firstAt timestamp after.rows = firstAt timestamp (table.rows ++ [row]) := by
  obtain ⟨_, ⟨old, stored, same, rfl⟩ | ⟨_, appended⟩⟩ := insertOrIgnore_ok inserted
  · rw [firstAt, firstAt, List.find?_append]
    cases found : after.rows.find? fun row => decide (row.timestamp = timestamp) with
    | some first => simp
    | none =>
      have absent := List.find?_eq_none.mp found old stored
      have differ : ¬row.timestamp = timestamp := by simpa [same] using absent
      simp [differ]
  · rw [appended]

/-- A batch of storable rows leaves the first row of every timestamp among the stored rows and the
batch. -/
theorem foldlM_insertOrIgnore {rows : List RequestRow} (storable : ∀ row ∈ rows, Storable row)
    (table : Requests) :
    ∃ after, rows.foldlM insertOrIgnore table = .ok after ∧
      ∀ timestamp, firstAt timestamp after.rows = firstAt timestamp (table.rows ++ rows) := by
  induction rows generalizing table with
  | nil => exact ⟨table, rfl, fun timestamp => by simp⟩
  | cons row rest ih =>
    obtain ⟨middle, inserted⟩ := insertOrIgnore_storable (storable row (List.mem_cons_self ..))
    obtain ⟨after, rested, first⟩ := ih (fun other member => storable other (List.mem_cons_of_mem _ member)) middle
    refine ⟨after, ?_, ?_⟩
    · rw [List.foldlM_cons, inserted]
      exact rested
    · intro timestamp
      rw [first, firstAt_append_congr (firstAt_insertOrIgnore inserted timestamp), List.append_assoc]
      rfl

/-- A batch that is stored has only storable rows. -/
theorem storable_of_foldlM {rows : List RequestRow} {table after : Requests}
    (inserted : rows.foldlM insertOrIgnore table = .ok after) : ∀ row ∈ rows, Storable row := by
  induction rows generalizing table with
  | nil => simp
  | cons row rest ih =>
    rw [List.foldlM_cons, Except.bind_def, Except.bind_eq_ok] at inserted
    obtain ⟨middle, first, rested⟩ := inserted
    intro other member
    rcases List.mem_cons.mp member with rfl | later
    · exact (insertOrIgnore_ok first).1
    · exact ih rested other later

/-- A batch adds none but its own rows. -/
theorem mem_of_foldlM {rows : List RequestRow} {table after : Requests}
    (inserted : rows.foldlM insertOrIgnore table = .ok after) {row : RequestRow} (member : row ∈ after.rows) :
    row ∈ table.rows ∨ row ∈ rows := by
  induction rows generalizing table with
  | nil =>
    cases inserted
    exact .inl member
  | cons first rest ih =>
    rw [List.foldlM_cons, Except.bind_def, Except.bind_eq_ok] at inserted
    obtain ⟨middle, one, rested⟩ := inserted
    rcases ih rested with old | new
    · obtain ⟨_, ⟨_, _, _, rfl⟩ | ⟨_, appended⟩⟩ := insertOrIgnore_ok one
      · exact .inl old
      · rw [appended, List.mem_append, List.mem_singleton] at old
        rcases old with old | rfl
        · exact .inl old
        · exact .inr (List.mem_cons_self ..)
    · exact .inr (List.mem_cons_of_mem _ new)

/-- The records of a batch are those of its elements. -/
theorem iterRecords_ok_iff {elements : List Object} {records : List RequestRecord} :
    iterRecords elements = .ok records ↔
      List.Forall₂ (fun element record => QueuePayload.validate element = .ok record) elements records := by
  have unindexed : elements = elements.zipIdx.map Prod.fst := (List.zipIdx_map_fst 0 elements).symm
  rw [iterRecords, List.mapM_ok_iff]
  conv_rhs => rw [unindexed, List.forall₂_map_left_iff]
  have same : ∀ (pair : Object × ℕ) (record : RequestRecord),
      (QueuePayload.validate pair.1).mapError (SchemaError.mk pair.2) = .ok record ↔
        QueuePayload.validate pair.1 = .ok record := by
    intro pair record
    cases QueuePayload.validate pair.1 <;> simp [Except.mapError]
  simp only [same]

/-- The count of a run that succeeds. -/
def countOf : Except PyError Report → Option ℕ
  | .ok (.inserted inserted _) => some inserted
  | _ => none

section Once

variable {run : Run} {elements : List Object} {records : List RequestRecord}

/-- A run that stores its batch. -/
structure Run.Accepts (run : Run) (elements : List Object) (records : List RequestRecord) : Prop where
  config : run.config = .ok ()
  popped : popUsageRecords run.reply = .ok elements
  parsed : iterRecords elements = .ok records
  storable : ∀ record ∈ records, Storable record.row

/-- It keeps the first row of every timestamp, and reports the rows that it adds. -/
theorem runOnce_accepts (accepts : run.Accepts elements records) (table : Requests) :
    ∃ after, runOnce table run = (after, .ok (.inserted (after.rows.length - table.rows.length) elements.length)) ∧
      after.rows = (records.map RequestRecord.row).foldl (List.insertFirst RequestRow.timestamp) table.rows ∧
      ∀ timestamp, firstAt timestamp after.rows =
        firstAt timestamp (table.rows ++ records.map RequestRecord.row) := by
  obtain ⟨after, inserted, first⟩ := foldlM_insertOrIgnore (List.forall_mem_map.mpr accepts.storable) table
  refine ⟨after, ?_, rows_foldlM_insertOrIgnore inserted, first⟩
  simp [runOnce, main, collect, accepts.config, accepts.popped, accepts.parsed, insertRecords, inserted,
    Except.mapError, Except.bind_def, Except.bind_ok]

/-- A run that does not store its batch changes nothing, and does not succeed. -/
theorem runOnce_rejects (rejects : ¬∃ elements records, run.Accepts elements records) (table : Requests) :
    (runOnce table run).1 = table ∧ countOf (runOnce table run).2 = none := by
  obtain ⟨config, reply⟩ := run
  cases config with
  | error message => exact ⟨rfl, rfl⟩
  | ok loaded =>
    rw [runOnce, main, collect]
    cases popped : popUsageRecords reply with
    | error raised => cases raised <;> exact ⟨rfl, rfl⟩
    | ok elements =>
      cases parsed : iterRecords elements with
      | error error => simp [Except.bind_def, Except.bind_ok, Except.bind_error, parsed, Except.mapError, countOf]
      | ok records =>
        cases inserted : insertRecords table records with
        | error error =>
          simp [Except.bind_def, Except.bind_ok, Except.bind_error, parsed, inserted, Except.mapError, countOf]
        | ok result =>
          simp only [insertRecords, Except.bind_def, Except.bind_eq_ok] at inserted
          obtain ⟨after, kept, _⟩ := inserted
          refine absurd ⟨elements, records, rfl, popped, parsed, ?_⟩ rejects
          intro record member
          exact storable_of_foldlM kept record.row (List.mem_map_of_mem member)

end Once

end CliproxyUsage.Collect
