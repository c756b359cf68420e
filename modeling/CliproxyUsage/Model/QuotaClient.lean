import CliproxyUsage.Python.Numbers
import CliproxyUsage.ToMathlib.ExceptMap

/-! # The management client

What a quota lookup asks of the management endpoint, what it makes of a reply, and the envelope it
returns. The reply of an `api-call` carries a status and a body of the vendor, any JSON values.
-/

namespace CliproxyUsage.Quota

open Python

structure QuotaUpstreamError where
  message : String
  upstreamStatus : Option ℤ := none
deriving DecidableEq, Repr

/-- What a lookup can raise: the errors of the quota module, or any other exception. -/
inductive Raised where
  | upstream (error : QuotaUpstreamError)
  | schema (message : String)
  | config (message : String)
  | uncaught (error : PyError)
deriving DecidableEq, Repr

/-- An exception that a lookup does not turn into an envelope. -/
def Raised.Escapes : Raised → Prop
  | .upstream _ => False
  | .schema _ => False
  | _ => True

/-- What the interpreter and pydantic compute: `str.lower`, `str.title`, `json.loads`, `str` of a JSON
value, and the validation of an `int | None` field. -/
structure Runtime where
  lower : String → String
  title : String → String
  loads : String → Except PyError Json
  str : Json → Except PyError String
  optionalInt : Json → Option (Option ℤ)

def uncaught {α : Type} (result : Except PyError α) : Except Raised α := result.mapError .uncaught

@[simp] theorem uncaught_ok {α : Type} (a : α) : uncaught (.ok a) = .ok a := rfl

@[simp] theorem uncaught_error {α : Type} (e : PyError) : uncaught (.error e : Except PyError α) = .error (.uncaught e) := rfl

inductive Provider where
  | claude
  | codex
deriving DecidableEq, Repr

structure QuotaWindow where
  id : String
  label : String
  usedPercent : Option FloatValue
  resetsAt : Option DateTime
deriving DecidableEq, Repr

structure ManualResetCredit where
  id : String
  expiresAt : DateTime
deriving DecidableEq, Repr

structure ManualResetSummary where
  availableCount : ℕ
  credits : List ManualResetCredit := []
  creditsError : Option String := none
deriving DecidableEq, Repr

structure ProviderQuota where
  provider : Provider
  authName : String
  planType : Option String
  windows : List QuotaWindow
  manualResets : Option ManualResetSummary := none
deriving DecidableEq, Repr

inductive ErrorKind where
  | auth
  | rateLimited
  | upstream
  | schema
  | transient
deriving DecidableEq, Repr

structure QuotaError where
  kind : ErrorKind
  message : String
  upstreamStatus : Option ℤ
deriving DecidableEq, Repr

/-- An envelope holds exactly one of a quota and an error. -/
structure QuotaResponse where
  quota : Option ProviderQuota
  error : Option QuotaError
  fetchedAt : ℤ
  staleAt : ℤ
  exactlyOne : quota.isSome ≠ error.isSome
deriving DecidableEq

structure AuthFileEntry where
  name : String
  type : String
  authIndex : Option String := none
  chatgptAccountId : Option String := none
deriving DecidableEq, Repr

/-- The opaque auth index, or the file name where it is missing or empty. -/
def AuthFileEntry.apiRef (entry : AuthFileEntry) : String :=
  match entry.authIndex with
  | none => entry.name
  | some index => if index = "" then entry.name else index

structure Payload where
  authIndex : String
  method : String
  url : String
  header : List (String × String)
deriving DecidableEq, Repr

structure ApiCallResponse where
  statusCode : Json
  body : Json

/-- The endpoint: the list of auth files, and the JSON reply to each `api-call`. -/
structure Client where
  listAuthFiles : Except QuotaUpstreamError (List AuthFileEntry)
  request : Payload → Except QuotaUpstreamError Json

/-- A body that is a string is parsed where it can be. -/
def parseBody (runtime : Runtime) (raw : Json) : Except Raised Json :=
  match raw with
  | .str text =>
    match runtime.loads text with
    | .ok parsed => .ok parsed
    | .error .valueError => .ok raw
    | .error e => .error (.uncaught e)
  | _ => .ok raw

/-- Read the reply of an `api-call`. -/
def readReply (runtime : Runtime) (data : Json) : Except Raised ApiCallResponse :=
  match data with
  | .dict members =>
    match members.lookup "status_code" with
    | none => .error (.upstream ⟨"api-call has an unexpected shape: 'status_code'", none⟩)
    | some statusCode => do
      let body ← parseBody runtime (Json.get members "body")
      .ok ⟨statusCode, body⟩
  | other =>
    let name := other.typeName
    .error (.upstream ⟨s!"api-call has an unexpected shape: '{name}' object has no attribute 'get'", none⟩)

def Client.apiCall (client : Client) (runtime : Runtime) (payload : Payload) : Except Raised ApiCallResponse := do
  let data ← (client.request payload).mapError .upstream
  readReply runtime data

end CliproxyUsage.Quota
