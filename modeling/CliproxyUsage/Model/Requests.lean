import CliproxyUsage.Model.Redact
import Mathlib.Data.List.Nodup

/-! # The requests table

The one table that the collector writes and the server reads. The timestamp is its primary key, so
a table cannot hold two rows of one timestamp.
-/

namespace CliproxyUsage

/-- One stored row, in the order of the columns. -/
structure RequestRow where
  timestamp : String
  apiKey : String
  model : String
  source : String
  authIndex : String
  latencyMs : ℤ
  inputTokens : ℤ
  outputTokens : ℤ
  reasoningTokens : ℤ
  cachedTokens : ℤ
  totalTokens : ℤ
  failed : ℤ
deriving DecidableEq, Repr

/-- A committed state of the table, its rows in insertion order. -/
structure Requests where
  rows : List RequestRow
  primaryKey : (rows.map RequestRow.timestamp).Nodup

theorem Requests.ext {first second : Requests} (same : first.rows = second.rows) : first = second := by
  cases first
  cases second
  cases same
  rfl

instance : DecidableEq Requests := fun first second =>
  decidable_of_iff (first.rows = second.rows) ⟨Requests.ext, fun same => same ▸ rfl⟩

def Requests.empty : Requests := ⟨[], List.nodup_nil⟩

/-- The columns that requests can be filtered by. -/
inductive FilterColumn where
  | apiKey
  | model
  | source
deriving DecidableEq, Repr

def RequestRow.column (row : RequestRow) : FilterColumn → String
  | .apiKey => row.apiKey
  | .model => row.model
  | .source => row.source

/-- Display key of each filterable column's raw values. -/
def filterKey : FilterColumn → String → String
  | .apiKey => redactKey
  | .model => modelKey
  | .source => redactSource

/-- `SELECT DISTINCT column FROM requests`. -/
def Requests.distinct (table : Requests) (column : FilterColumn) : List String :=
  (table.rows.map fun row => row.column column).eraseDups

theorem Requests.mem_distinct {table : Requests} {column : FilterColumn} {value : String} :
    value ∈ table.distinct column ↔ ∃ row ∈ table.rows, row.column column = value := by
  simp [distinct]

end CliproxyUsage
