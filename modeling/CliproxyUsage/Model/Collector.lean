import CliproxyUsage.Model.Requests
import CliproxyUsage.Python.Exceptions
import CliproxyUsage.Python.Json
import CliproxyUsage.Python.Text
import CliproxyUsage.Sqlite.DateTime
import CliproxyUsage.Sqlite.Select
import CliproxyUsage.ToMathlib.ExceptMap

/-! # The collector

One run pops a batch of queue elements, validates all of them, and inserts the records in one
transaction. Validation is strict and reports every field at fault; a record whose timestamp is
already stored is ignored.
-/

namespace CliproxyUsage.Collect

open Python Sqlite

abbrev Object := List (String × Json)

inductive Fault where
  | missing
  | stringType
  | intType
  | boolType
  | modelType
deriving DecidableEq, Repr

/-- Faults of a validation, each at the path of its field. -/
abbrev Faults := List (List String × Fault)

abbrev Validated (α : Type) := Except Faults α

def Validated.faults {α : Type} : Validated α → Faults
  | .ok _ => []
  | .error faults => faults

def strictStr : Json → Validated String
  | .str s => .ok s
  | _ => .error [([], .stringType)]

/-- A strict integer: neither a bool nor a float of integral value. -/
def strictInt : Json → Validated ℤ
  | .int n => .ok n
  | _ => .error [([], .intType)]

def strictBool : Json → Validated Bool
  | .bool b => .ok b
  | _ => .error [([], .boolType)]

/-- A required field; unknown names are ignored. -/
def field {α : Type} (object : Object) (name : String) (validate : Json → Validated α) : Validated α :=
  match object.lookup name with
  | none => .error [([name], .missing)]
  | some value => (validate value).mapError fun faults => faults.map fun fault => (name :: fault.1, fault.2)

structure Tokens where
  inputTokens : ℤ
  outputTokens : ℤ
  reasoningTokens : ℤ
  cachedTokens : ℤ
  totalTokens : ℤ
deriving DecidableEq, Repr

def Tokens.validate (value : Json) : Validated Tokens :=
  match value with
  | .dict object =>
    let input := field object "input_tokens" strictInt
    let output := field object "output_tokens" strictInt
    let reasoning := field object "reasoning_tokens" strictInt
    let cached := field object "cached_tokens" strictInt
    let total := field object "total_tokens" strictInt
    match input, output, reasoning, cached, total with
    | .ok inputTokens, .ok outputTokens, .ok reasoningTokens, .ok cachedTokens, .ok totalTokens =>
      .ok { inputTokens, outputTokens, reasoningTokens, cachedTokens, totalTokens }
    | _, _, _, _, _ => .error (input.faults ++ output.faults ++ reasoning.faults ++ cached.faults ++ total.faults)
  | _ => .error [([], .modelType)]

/-- One request row: yielded by the parser, inserted by the DB layer. -/
structure RequestRecord where
  timestamp : String
  apiKey : String
  model : String
  source : String
  authIndex : String
  latencyMs : ℤ
  inputTokens : ℤ
  outputTokens : ℤ
  reasoningTokens : ℤ
  cachedTokens : ℤ
  totalTokens : ℤ
  failed : Bool
deriving DecidableEq, Repr

/-- Validate a queue payload as `_QueuePayload` and flatten its tokens. -/
def QueuePayload.validate (object : Object) : Validated RequestRecord :=
  let timestamp := field object "timestamp" strictStr
  let apiKey := field object "api_key" strictStr
  let model := field object "model" strictStr
  let source := field object "source" strictStr
  let authIndex := field object "auth_index" strictStr
  let latencyMs := field object "latency_ms" strictInt
  let failed := field object "failed" strictBool
  let tokens := field object "tokens" Tokens.validate
  match timestamp, apiKey, model, source, authIndex, latencyMs, failed, tokens with
  | .ok timestamp, .ok apiKey, .ok model, .ok source, .ok authIndex, .ok latencyMs, .ok failed, .ok tokens =>
    .ok
      { timestamp, apiKey, model, source, authIndex, latencyMs
        inputTokens := tokens.inputTokens
        outputTokens := tokens.outputTokens
        reasoningTokens := tokens.reasoningTokens
        cachedTokens := tokens.cachedTokens
        totalTokens := tokens.totalTokens
        failed }
  | _, _, _, _, _, _, _, _ =>
    .error (timestamp.faults ++ apiKey.faults ++ model.faults ++ source.faults ++ authIndex.faults ++
      latencyMs.faults ++ failed.faults ++ tokens.faults)

/-- Raised when a queue payload is malformed or has wrong types. -/
structure SchemaError where
  index : ℕ
  faults : Faults
deriving DecidableEq, Repr

/-- One record per element, up to the first element that fails validation. -/
def iterRecords (elements : List Object) : Except SchemaError (List RequestRecord) :=
  elements.zipIdx.mapM fun (element, index) => (QueuePayload.validate element).mapError (SchemaError.mk index)

/-- The parameters of the INSERT. -/
def RequestRecord.row (record : RequestRecord) : RequestRow where
  timestamp := record.timestamp
  apiKey := record.apiKey
  model := record.model
  source := record.source
  authIndex := record.authIndex
  latencyMs := record.latencyMs
  inputTokens := record.inputTokens
  outputTokens := record.outputTokens
  reasoningTokens := record.reasoningTokens
  cachedTokens := record.cachedTokens
  totalTokens := record.totalTokens
  failed := if record.failed then 1 else 0

/-- Integers outside 64 bits cannot be bound to a parameter. -/
def bindable (row : RequestRow) : Bool :=
  [row.latencyMs, row.inputTokens, row.outputTokens, row.reasoningTokens, row.cachedTokens, row.totalTokens,
    row.failed].all fun n => decide (FitsInt64 n)

/-- `INSERT OR IGNORE`. The index on `datetime(timestamp)` rejects a timestamp that stands for the
current time, which is not deterministic. -/
def insertOrIgnore (table : Requests) (row : RequestRow) : Except PyError Requests :=
  if ¬bindable row then .error .overflowError
  else if isCurrentTime row.timestamp then .error .operationalError
  else if known : row.timestamp ∈ table.rows.map RequestRow.timestamp then .ok table
  else .ok ⟨table.rows ++ [row], by
    rw [List.map_append, List.nodup_append]
    exact ⟨table.primaryKey, List.nodup_singleton _, by simpa using fun r present same => known (by
      rw [← same]; exact List.mem_map_of_mem present)⟩⟩

/-- Insert the records in one transaction, which an exception rolls back. Returns the number of new
rows and the table after. -/
def insertRecords (table : Requests) (records : List RequestRecord) : Except PyError (ℕ × Requests) := do
  let after ← (records.map RequestRecord.row).foldlM insertOrIgnore table
  .ok (after.rows.length - table.rows.length, after)

/-- A connection: what is committed, what its open transaction sees, and how many rows it has inserted. -/
structure Connection where
  committed : Requests
  table : Requests
  totalChanges : ℕ

/-- The statements run up to the first that raises. -/
def Connection.executemany (conn : Connection) : List RequestRow → Connection × Except PyError Unit
  | [] => (conn, .ok ())
  | row :: rest => match insertOrIgnore conn.table row with
    | .error error => (conn, .error error)
    | .ok table =>
      let added := if row.timestamp ∈ conn.table.rows.map RequestRow.timestamp then 0 else 1
      executemany { conn with table, totalChanges := conn.totalChanges + added } rest

/-- `with conn` and the body: an exception rolls back, else the transaction commits. -/
def Connection.transaction (conn : Connection) (body : Connection → Connection × Except PyError Unit) :
    Connection × Except PyError Unit :=
  match body conn with
  | (conn, .ok ()) => ({ conn with committed := conn.table }, .ok ())
  | (conn, .error error) => ({ conn with table := conn.committed }, .error error)

/-- The statements of `insert_records`; `insertRecords` is what they come to. -/
def Connection.insertRecords (conn : Connection) (records : List RequestRecord) : Connection × Except PyError ℕ :=
  let rows := records.map RequestRecord.row
  let before := conn.totalChanges
  match conn.transaction (·.executemany rows) with
  | (conn, .ok ()) => (conn, .ok (conn.totalChanges - before))
  | (conn, .error error) => (conn, .error error)

/-- What ends a run early: an error that `main` reports, or one that it does not catch. -/
inductive Raised where
  | auth (message : String)
  | transient (message : String)
  | schema (error : SchemaError)
  | uncaught (error : PyError)
deriving DecidableEq, Repr

/-- A reply of the queue endpoint, with what `response.json()` gives. -/
structure Response where
  status : ℤ
  text : String
  json : Except PyError Json

def responseMessage (response : Response) : String :=
  let status := response.status
  let text := strip response.text
  if text ≠ "" then s!"HTTP {status}: {text}" else s!"HTTP {status}"

def normalizePayload : Json → Except Raised (List Object)
  | .list items =>
    match items.mapM Json.dict? with
    | some elements => .ok elements
    | none => .error (.transient "Usage queue response must be an array of objects")
  | payload =>
    let name := payload.typeName
    .error (.transient s!"Unexpected usage queue response type: {name}")

/-- Pop one batch of raw queue records; an HTTP failure comes with its message. -/
def popUsageRecords (reply : Except String Response) : Except Raised (List Object) :=
  match reply with
  | .error message => .error (.transient message)
  | .ok response =>
    if response.status = 401 ∨ response.status = 403 then .error (.auth (responseMessage response))
    else if 400 ≤ response.status then .error (.transient (responseMessage response))
    else match response.json with
      | .ok payload => normalizePayload payload
      | .error .valueError => .error (.transient "Usage queue response was not valid JSON")
      | .error error => .error (.uncaught error)

/-- What a run prints. -/
inductive Report where
  | inserted (inserted queued : ℕ)
  | configurationError (message : String)
  | authenticationError (message : String)
  | schemaError (error : SchemaError)
  | transientError (message : String)
deriving DecidableEq, Repr

def Report.exitCode : Report → ℕ
  | .inserted _ _ => 0
  | .transientError _ => 1
  | .configurationError _ => 2
  | .authenticationError _ => 3
  | .schemaError _ => 4

/-- Pop, validate and insert one batch; returns the counts and the table after. -/
def collect (reply : Except String Response) (table : Requests) : Except Raised (ℕ × ℕ × Requests) := do
  let queuedRecords ← popUsageRecords reply
  let records ← (iterRecords queuedRecords).mapError .schema
  let (inserted, after) ← (insertRecords table records).mapError .uncaught
  .ok (inserted, queuedRecords.length, after)

/-- One run of the collector: the table after it, and its report unless an exception escapes. -/
def main (config : Except String Unit) (reply : Except String Response) (table : Requests) :
    Requests × Except PyError Report :=
  match config with
  | .error message => (table, .ok (.configurationError message))
  | .ok () =>
    match collect reply table with
    | .ok (inserted, queued, after) => (after, .ok (.inserted inserted queued))
    | .error (.auth message) => (table, .ok (.authenticationError message))
    | .error (.schema error) => (table, .ok (.schemaError error))
    | .error (.transient message) => (table, .ok (.transientError message))
    | .error (.uncaught error) => (table, .error error)

/-- One run: the configuration it loads, and the reply that its request to the queue gets. -/
structure Run where
  config : Except String Unit
  reply : Except String Response

def runOnce (table : Requests) (run : Run) : Requests × Except PyError Report := main run.config run.reply table

end CliproxyUsage.Collect
