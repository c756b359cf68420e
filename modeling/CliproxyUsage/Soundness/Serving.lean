import CliproxyUsage.Machine.Core.Run
import CliproxyUsage.Proofs.Collector
import CliproxyUsage.Proofs.Serving

/-! # Serving what the collector accepts

The collector takes any string as a timestamp, and the all-time queries read every stored row. As
long as every accepted timestamp is one the server can read, the sums of the columns fit in 64
bits, and SQLite binds the values of every priced model, every endpoint keeps returning.
-/

namespace CliproxyUsage

open Python Machine Collect

/-- The table after a batch, when `iter_records` accepts it and `insert_records` stores it. -/
def storeBatch (table : Requests) (elements : List Object) : Option Requests :=
  match iterRecords elements with
  | .error _ => none
  | .ok records => (insertRecords table records).toOption.map Prod.snd

/-- The server can read the timestamp of every record of the batch. -/
def ReadableBatch (host : Host) (elements : List Object) : Prop :=
  ∀ records, iterRecords elements = .ok records → ∀ record ∈ records, Readable host record.row

variable {host : Host} {pricing : PricingMap} {aliases : List (String × String)}

/-- The rows after a batch are rows from before it or rows of its records. -/
theorem mem_storeBatch {table after : Requests} {elements : List Object}
    (stored : storeBatch table elements = some after) {row : RequestRow} (member : row ∈ after.rows) :
    row ∈ table.rows ∨ ∃ records, iterRecords elements = .ok records ∧ ∃ record ∈ records, record.row = row := by
  rw [storeBatch] at stored
  split at stored
  · contradiction
  · next records parsed =>
    cases inserted : insertRecords table records with
    | error error => simp [inserted, Except.toOption] at stored
    | ok result =>
      obtain rfl : result.2 = after := by simpa [inserted, Except.toOption] using stored
      simp only [insertRecords, Except.bind_def, Except.bind_eq_ok, Except.ok.injEq] at inserted
      obtain ⟨final, folded, rfl⟩ := inserted
      rcases mem_of_foldlM folded member with old | new
      · exact .inl old
      · obtain ⟨record, present, same⟩ := List.mem_map.mp new
        exact .inr ⟨records, parsed, record, present, same⟩

/-- Along a run of readable batches every stored row is readable. -/
theorem readable_of_run {batches : List (List Object)} {table : Requests}
    (readable : StepsMeet storeBatch (fun _ batch => ReadableBatch host batch) .empty batches)
    (stored : run storeBatch .empty batches = some table) : ∀ row ∈ table.rows, Readable host row := by
  refine run_trace_meeting (fun _ table => ∀ row ∈ table.rows, Readable host row) ?_ ?_ readable stored
  · intro row member
    simp [Requests.empty] at member
  · intro _ middle batch after _ held accepted stepped row member
    rcases mem_storeBatch stepped member with old | ⟨records, parsed, record, present, rfl⟩
    · exact held row old
    · exact accepted records parsed record present

/-- After any run of batches whose timestamps the server can read, while the sums fit and SQLite binds the values
of the stored models, the options return, and so do the all-time summary and every all-time breakdown. -/
theorem accepted_records_are_served {batches : List (List Object)} {table : Requests}
    (readable : StepsMeet storeBatch (fun _ batch => ReadableBatch host batch) .empty batches)
    (stored : run storeBatch .empty batches = some table) (fits : SumsFit table.rows)
    (binds : Binds host pricing none {} table) {end_ : ℤ} (ordinary : Ordinary end_) :
    (∃ response, (queryOptions host pricing aliases).run table = .ok response) ∧
    ∀ (requested : Option Bucket) (tz : Zone) (filters : Filters), Binds host pricing (some ⟨none, end_⟩) filters table →
      (∃ response, (querySummary host ⟨none, end_⟩ requested tz filters pricing).run table = .ok response) ∧
      ∀ dim, ∃ response,
        (queryBreakdown host dim ⟨none, end_⟩ requested tz filters pricing aliases).run table = .ok response := by
  have servable : Servable host table := ⟨readable_of_run readable stored, fits⟩
  have fair : Window.Fair ⟨none, end_⟩ := ⟨ordinary, by simp⟩
  refine ⟨queryOptions_total servable binds, ?_⟩
  intro requested tz filters also
  refine ⟨querySummary_total servable fair requested tz also, ?_⟩
  intro dim
  exact queryBreakdown_total servable dim fair requested tz also

def collected (timestamp : String) (latencyMs : ℤ) : Object :=
  [("timestamp", .str timestamp), ("api_key", .str "sk-team-0001"), ("model", .str "gpt-5"),
    ("source", .str "dev@example.com"), ("auth_index", .str "0"), ("latency_ms", .int latencyMs),
    ("failed", .bool false), ("tokens", .dict [("input_tokens", .int 100), ("output_tokens", .int 20),
      ("reasoning_tokens", .int 0), ("cached_tokens", .int 40), ("total_tokens", .int 120)])]

def collectedRow (timestamp : String) (latencyMs : ℤ) : RequestRow :=
  ⟨timestamp, "sk-team-0001", "gpt-5", "dev@example.com", "0", latencyMs, 100, 20, 0, 40, 120, 0⟩

def servedTable : Requests := ⟨[collectedRow "2026-03-01T10:00:00Z" 900], by decide⟩

theorem accepted_records_are_served_one :
    (∃ response, (queryOptions .utc .empty []).run servedTable = .ok response) ∧
    ∀ (requested : Option Bucket) (tz : Zone),
      (∃ response, (querySummary .utc ⟨none, 1772366400000000⟩ requested tz {} .empty).run servedTable =
        .ok response) ∧
      ∀ dim, ∃ response, (queryBreakdown .utc dim ⟨none, 1772366400000000⟩ requested tz {} .empty []).run
        servedTable = .ok response := by
  have readable : StepsMeet storeBatch (fun _ batch => ReadableBatch .utc batch) .empty
      [[collected "2026-03-01T10:00:00Z" 900]] := by
    rw [stepsMeet_cons]
    refine ⟨?_, fun _ _ => stepsMeet_nil⟩
    intro records parsed record member
    rw [iterRecords_ok_iff] at parsed
    cases parsed with
    | cons valid rest =>
      cases valid
      cases rest
      rw [List.mem_singleton] at member
      subst member
      exact ⟨1772359200000000, by decide +kernel, by decide⟩
  obtain ⟨options, queries⟩ := @accepted_records_are_served .utc .empty [] _ servedTable readable (by decide +kernel)
    (by decide +kernel) (by decide +kernel) 1772366400000000 (by decide)
  exact ⟨options, fun requested tz => queries requested tz {} (by decide +kernel)⟩

def undatedTable : Requests := ⟨[collectedRow "not-a-date" 900], by decide⟩

def slowTable : Requests :=
  ⟨[collectedRow "2026-03-01T10:00:00Z" 9223372036854775807, collectedRow "2026-03-01T10:01:00Z" 900], by decide⟩

def earlyTable : Requests := ⟨[collectedRow "0001-01-01T00:00:00Z" 900], by decide⟩

/-- A zone five hours behind UTC. -/
def eastern : Zone := ⟨-5 * microsPerHour, [], by decide, Zone.utc.spaced⟩

/-- The collector stores a timestamp that is no date, and from then on the options and the all-time
queries raise `ValueError`. Latencies that overflow a sum break them too, and so does a timestamp
whose local time is out of range. -/
theorem accepted_records_break_queries :
    run storeBatch .empty [[collected "not-a-date" 900]] = some undatedTable ∧
    (queryOptions .utc .empty []).run undatedTable = .error .valueError ∧
    (querySummary .utc ⟨none, 1772366400000000⟩ none .utc {} .empty).run undatedTable = .error .valueError ∧
    (queryBreakdown .utc .model ⟨none, 1772366400000000⟩ none .utc {} .empty []).run undatedTable =
      .error .valueError ∧
    run storeBatch .empty [[collected "2026-03-01T10:00:00Z" 9223372036854775807,
      collected "2026-03-01T10:01:00Z" 900]] = some slowTable ∧
    (queryOptions .utc .empty []).run slowTable = .error .operationalError ∧
    run storeBatch .empty [[collected "0001-01-01T00:00:00Z" 900]] = some earlyTable ∧
    (querySummary .utc ⟨none, 1772366400000000⟩ none eastern {} .empty).run earlyTable = .error .overflowError := by
  refine ⟨?_, ?_, ?_, ?_, ?_, ?_, ?_, ?_⟩
  · decide +kernel
  · decide +kernel
  · decide +kernel
  · decide +kernel
  · decide +kernel
  · decide +kernel
  · decide +kernel
  · decide +kernel

end CliproxyUsage
