import CliproxyUsage.Proofs.Collector
import Mathlib.Data.List.Nodup

/-! # What becomes of popped records

Popping removes the elements from the queue, so a run decides for good what is stored of them. A
batch in which every element validates and can be inserted is stored up to the first row of each
timestamp; any other batch is lost as a whole.
-/

namespace CliproxyUsage.Collect

open Python Sqlite

/-- The element on its own passes the validation, with this record. -/
def IsRecord (item : Json) (record : RequestRecord) : Prop :=
  ∃ object, item = .dict object ∧ QueuePayload.validate object = .ok record

/-- The first row of a timestamp in a table is the only one. -/
theorem mem_iff_firstAt {table : Requests} {row : RequestRow} :
    row ∈ table.rows ↔ firstAt row.timestamp table.rows = some row := by
  constructor
  · intro stored
    cases found : firstAt row.timestamp table.rows with
    | none =>
      have absent := List.find?_eq_none.mp found row stored
      simp at absent
    | some first =>
      obtain ⟨present, same⟩ := firstAt_mem found
      rw [List.inj_on_of_nodup_map table.primaryKey present stored same]
  · exact fun found => (firstAt_mem found).1

/-- The elements of a JSON array of objects. -/
private theorem normalizePayload_ok {items : List Json} {elements : List Object} :
    normalizePayload (.list items) = .ok elements ↔
      List.Forall₂ (fun item element => item = .dict element) items elements := by
  have objects : ∀ (item : Json) (element : Object), item.dict? = some element ↔ item = .dict element := by
    intro item element
    cases item <;> simp [Json.dict?]
  have each : items.mapM Json.dict? = some elements ↔
      List.Forall₂ (fun item element => item = .dict element) items elements := by
    induction items generalizing elements with
    | nil => cases elements <;> simp
    | cons item rest ih =>
      simp only [List.mapM_cons, Option.bind_eq_bind, Option.bind_eq_some_iff, Option.pure_def,
        Option.some.injEq, objects, ih]
      constructor
      · rintro ⟨element, here, others, later, rfl⟩
        exact .cons here later
      · rintro (_ | ⟨here, later⟩)
        exact ⟨_, here, _, later, rfl⟩
  rw [← each, normalizePayload]
  cases items.mapM Json.dict? <;> simp

/-- A reply below 400 with an array pops its elements. -/
private theorem popUsageRecords_list {status : ℤ} (served : status < 400) (text : String) (items : List Json) :
    popUsageRecords (.ok ⟨status, text, .ok (.list items)⟩) = normalizePayload (.list items) := by
  rw [popUsageRecords]
  simp only
  rw [if_neg (by omega), if_neg (by omega)]

/-- The records of a popped batch, when every element has one. -/
theorem forall₂_isRecord {items : List Json} {records : List RequestRecord} :
    List.Forall₂ IsRecord items records ↔ ∃ elements, normalizePayload (.list items) = .ok elements ∧
      iterRecords elements = .ok records := by
  simp only [normalizePayload_ok, iterRecords_ok_iff]
  exact List.forall₂_comp.symm

/-- A run pops an array below status 400. If every element has a record that can be inserted, the
run ends normally, and a record's row is stored exactly when it is the first of its timestamp among
the rows stored before and the batch. Otherwise the run stores nothing. -/
theorem popped_records_are_kept {status : ℤ} (served : status < 400) (text : String) (items : List Json)
    (table : Requests) :
    (∀ records, List.Forall₂ IsRecord items records → (∀ record ∈ records, Storable record.row) →
      ∃ after, main (.ok ()) (.ok ⟨status, text, .ok (.list items)⟩) table =
          (after, .ok (.inserted (after.rows.length - table.rows.length) items.length)) ∧
        ∀ record ∈ records,
          firstAt record.timestamp after.rows =
            firstAt record.timestamp (table.rows ++ records.map RequestRecord.row) ∧
          (record.row ∈ after.rows ↔
            firstAt record.timestamp (table.rows ++ records.map RequestRecord.row) = some record.row)) ∧
    ((¬∃ records, List.Forall₂ IsRecord items records ∧ ∀ record ∈ records, Storable record.row) →
      (main (.ok ()) (.ok ⟨status, text, .ok (.list items)⟩) table).1 = table) := by
  have list := popUsageRecords_list served text items
  constructor
  · intro records each storable
    obtain ⟨elements, popped, parsed⟩ := forall₂_isRecord.mp each
    have accepts : Run.Accepts ⟨.ok (), .ok ⟨status, text, .ok (.list items)⟩⟩ elements records :=
      ⟨rfl, list.trans popped, parsed, storable⟩
    obtain ⟨after, ran, _, first⟩ := runOnce_accepts accepts table
    have length : elements.length = items.length := ((normalizePayload_ok.mp popped).length_eq).symm
    rw [length] at ran
    refine ⟨after, ran, ?_⟩
    intro record member
    have same := first record.timestamp
    refine ⟨same, ?_⟩
    rw [← same]
    exact mem_iff_firstAt
  · intro failing
    apply (@runOnce_rejects ⟨.ok (), .ok ⟨status, text, .ok (.list items)⟩⟩ ?_ table).1
    rintro ⟨elements, records, accepts⟩
    exact failing ⟨records, forall₂_isRecord.mpr ⟨elements, list.symm.trans accepts.popped, accepts.parsed⟩,
      accepts.storable⟩

def queued (timestamp model : String) (latencyMs : ℤ) : Json :=
  .dict
    [("timestamp", .str timestamp), ("api_key", .str "sk-team-0001"), ("model", .str model),
      ("source", .str "dev@example.com"), ("auth_index", .str "0"), ("latency_ms", .int latencyMs),
      ("failed", .bool false), ("tokens", .dict [("input_tokens", .int 100), ("output_tokens", .int 20),
        ("reasoning_tokens", .int 0), ("cached_tokens", .int 40), ("total_tokens", .int 120)])]

def queuedRecord (timestamp model : String) (latencyMs : ℤ) : RequestRecord :=
  ⟨timestamp, "sk-team-0001", model, "dev@example.com", "0", latencyMs, 100, 20, 0, 40, 120, false⟩

theorem isRecord_queued (timestamp model : String) (latencyMs : ℤ) :
    IsRecord (queued timestamp model latencyMs) (queuedRecord timestamp model latencyMs) := ⟨_, rfl, rfl⟩

theorem popped_records_are_kept_batch :
    (∃ after, main (.ok ()) (.ok ⟨200, "", .ok (.list [queued "2026-03-01T10:00:00Z" "gpt-5" 900,
          queued "2026-03-01T10:00:01Z" "gpt-4" 700])⟩) .empty = (after, .ok (.inserted (after.rows.length - 0) 2)) ∧
        (queuedRecord "2026-03-01T10:00:01Z" "gpt-4" 700).row ∈ after.rows) ∧
    (main (.ok ()) (.ok ⟨200, "", .ok (.list [.null])⟩) .empty).1 = .empty := by
  constructor
  · obtain ⟨after, ran, kept⟩ := (popped_records_are_kept (show (200 : ℤ) < 400 by decide) ""
      [queued "2026-03-01T10:00:00Z" "gpt-5" 900, queued "2026-03-01T10:00:01Z" "gpt-4" 700] .empty).1
      [queuedRecord "2026-03-01T10:00:00Z" "gpt-5" 900, queuedRecord "2026-03-01T10:00:01Z" "gpt-4" 700]
      (.cons (isRecord_queued ..) (.cons (isRecord_queued ..) .nil)) (by decide)
    refine ⟨after, ran, (kept (queuedRecord "2026-03-01T10:00:01Z" "gpt-4" 700) (by simp)).2.mpr ?_⟩
    decide
  · apply (popped_records_are_kept (show (200 : ℤ) < 400 by decide) "" [.null] .empty).2
    rintro ⟨records, each, _⟩
    cases each with
    | cons valid _ =>
      obtain ⟨object, same, _⟩ := valid
      cases same

/-- The row of the first record is missing after a run on an empty table. -/
def Loses (record : RequestRecord) (items : List Json) : Prop :=
  (∃ item ∈ items, IsRecord item record) ∧
    record.row ∉ (main (.ok ()) (.ok ⟨200, "", .ok (.list items)⟩) .empty).1.rows

/-- A valid record is lost beside an element without fields, an element that is no object, a record
whose latency does not fit, a record whose timestamp is a word for the current time, and after
another record of its timestamp. -/
theorem popped_records_are_lost :
    let record := queuedRecord "2026-03-01T10:00:00Z" "gpt-5" 900
    let item := queued "2026-03-01T10:00:00Z" "gpt-5" 900
    Loses record [item, .dict []] ∧ Loses record [item, .null] ∧
    Loses record [item, queued "2026-03-01T10:00:01Z" "gpt-5" 9223372036854775808] ∧
    Loses record [item, queued "now" "gpt-5" 900] ∧
    Loses record [queued "2026-03-01T10:00:00Z" "gpt-4" 900, item] := by
  intro record item
  have valid : IsRecord item record := isRecord_queued ..
  refine ⟨⟨⟨item, ?_, valid⟩, ?_⟩, ⟨⟨item, ?_, valid⟩, ?_⟩, ⟨⟨item, ?_, valid⟩, ?_⟩, ⟨⟨item, ?_, valid⟩, ?_⟩,
    ⟨item, ?_, valid⟩, ?_⟩
  · simp
  · decide +kernel
  · simp
  · decide +kernel
  · simp
  · decide +kernel
  · simp
  · decide +kernel
  · simp
  · decide +kernel

end CliproxyUsage.Collect
