import CliproxyUsage.Python.Text
import CliproxyUsage.Python.ZoneInfo
import CliproxyUsage.Sqlite.DateTime

/-! # Instants of stored timestamps

The server reads a stored timestamp in two ways: SQLite's date functions select and slice rows, and
`parseTs` gives the instants that responses show. `Host` is what the interpreter supplies.
-/

namespace CliproxyUsage

open Python

/-- The `str.lower` of the interpreter, the local zone of the server process, and the values that its SQLite binds
to one statement. -/
structure Host where
  lower : String → String
  zone : Zone
  maxVariables : ℕ

/-- A server process in UTC, on text whose letters are ASCII, with the default limit of SQLite. -/
def Host.utc : Host := ⟨asciiLower, .utc, 32766⟩

/-- `datetime.fromisoformat(value).astimezone(UTC)`; a naive value is in the process zone. -/
def parseTs (host : Host) (value : String) : Except PyError ℤ :=
  match fromIsoFormat value with
  | none => .error .valueError
  | some dt =>
    match dt.offset with
    | some offset => if InRange (dt.wall - offset) then .ok (dt.wall - offset) else .error .overflowError
    | none =>
      -- The process zone is looked up a day before and a day after the wall clock too.
      if InRange (dt.wall - microsPerDay) ∧ InRange (dt.wall + microsPerDay) then .ok (host.zone.toUtc ⟨dt.wall, false⟩)
      else .error .valueError

/-- `datetime` of the text that `_ts_param` prints, which keeps whole seconds. -/
def tsParam (instant : ℤ) : ℤ ×ₗ ℤ :=
  let seconds := instant / microsPerSecond
  toLex (seconds / 86400, seconds % 86400)

end CliproxyUsage
