import CliproxyUsage.Model.Cache
import CliproxyUsage.Model.QuotaService

/-! # Tasks of the quota service

`get_quota` and `reset_quota` as tasks that share the list of auth files and the cache of envelopes.
A task runs without a break up to its next `await`: of the list, of `get_or_fetch`, or of the reset
endpoint. The system remembers the events of the envelope cache, which the code does not store.
-/

namespace CliproxyUsage.Quota

open Python
open Cache (Exc)

namespace Provider

/-- `isinstance(provider, ResetProvider)`. -/
def canReset : Provider → Bool
  | .claude => false
  | .codex => true

end Provider

/-- An `api-call` with a request body. -/
structure ResetPayload extends Payload where
  data : String
deriving DecidableEq, Repr

/-- The id of the request is a fresh UUID. -/
def Codex.buildResetApiCallPayload (authName : String) (accountId : Option String) (requestId : String) :
    ResetPayload where
  authIndex := authName
  method := "POST"
  url := resetCreditsUrl ++ "/consume"
  header := baseHeaders accountId ++ [("Content-Type", "application/json")]
  data := "\x7b\"redeem_request_id\":\"" ++ requestId ++ "\"\x7d"

/-- A provider id and the name of an auth file, any strings. -/
structure Account where
  providerId : String
  authName : String
deriving DecidableEq, Repr

namespace Account

def cacheKey (account : Account) : String := Service.cacheKey account.providerId account.authName

end Account

inductive Request where
  | get (account : Account)
  | reset (account : Account) (requestId : String)
deriving DecidableEq, Repr

def Request.account : Request → Account
  | .get account | .reset account _ => account

/-- What a task raises. -/
inductive TaskError where
  | raised (exc : Exc Raised)
  | capability (message : String)
  /-- `QuotaUpstreamError` with the status of the reset endpoint. -/
  | reset (message : String) (upstreamStatus : Json)

/-- Where a task stands. A `get_quota` that looks up its envelope ends with its call of the cache. -/
inductive Task where
  | listing (request : Request) (provider : Provider)
  | looking (account : Account) (provider : Provider) (entry : AuthFileEntry)
  | resetting (account : Account) (requestId : String) (payload : ResetPayload)
  | returned (account : Account) (requestId : String)
  | raised (request : Request) (error : TaskError)

/-- The call that a task runs. -/
def Task.request : Task → Request
  | .listing request _ | .raised request _ => request
  | .looking account _ _ => .get account
  | .resetting account requestId _ | .returned account requestId => .reset account requestId

abbrev Lists := Cache.State Unit (List AuthFileEntry) Raised

abbrev Quotas := Cache.State String QuotaResponse Raised

abbrev QuotaEvent := Cache.Event String QuotaResponse Raised

structure System where
  authFiles : Lists
  quotas : Quotas
  tasks : ℕ → Option Task
  /-- The events of the envelope cache so far. -/
  log : List QuotaEvent

namespace System

def start (now : ℚ) : System where
  authFiles := .start _ _ _ now
  quotas := .start _ _ _ now
  tasks _ := none
  log := []

def setTask (s : System) (task : ℕ) (status : Task) : System :=
  { s with tasks := Function.update s.tasks task (some status) }

/-- A step of the envelope cache that the event loop takes. -/
def quotaStep (s : System) (e : QuotaEvent) : Option System :=
  (Cache.step s.quotas e).map fun quotas => { s with quotas, log := s.log ++ [e] }

end System

inductive Event where
  /-- A task calls `get_quota` or `reset_quota`. -/
  | begin_ (task : ℕ) (request : Request)
  /-- A fetch of the list ends, or a task that awaits it resumes or is cancelled. -/
  | list (e : Cache.Event Unit (List AuthFileEntry) Raised)
  /-- The `_fetch_quota` that a task leads ends, with these answers of the client and the clock. -/
  | fetched (task : ℕ) (client : Client) (clock : ℤ)
  /-- A task that awaits an envelope resumes or is cancelled. -/
  | quota (e : QuotaEvent)
  /-- The reset endpoint answers the task, or its `api_call` raises. -/
  | answered (task : ℕ) (reply : Except (Exc Raised) ApiCallResponse)
  | tick (seconds : ℚ)

/-- The task that takes a step, if it is a step of a task. -/
def Event.task? : Event → Option ℕ
  | .begin_ task _ | .fetched task _ _ | .answered task _ => some task
  | .list e => e.call?
  | .quota e => e.call?
  | .tick _ => none

/-- The events of the list that come from outside the service. -/
def listEvent : Cache.Event Unit (List AuthFileEntry) Raised → Bool
  | .fetched _ _ | .failed _ _ | .aborted _ | .wake _ | .cancel _ => true
  | _ => false

/-- The events of the envelope cache that come from outside the service, apart from the ends of fetches. -/
def quotaEvent : QuotaEvent → Bool
  | .aborted _ | .wake _ | .cancel _ => true
  | _ => false

namespace Service

variable (service : Service)

/-- `_resolve_auth_entry` once the list is there. -/
def resolveFrom (files : List AuthFileEntry) (account : Account) : Except Raised AuthFileEntry :=
  { service with client := { service.client with listAuthFiles := .ok files } }.resolveAuthEntry account.providerId
    account.authName

/-- `_fetch_quota` with the answers that the client gives it, and the clock at its end. -/
def fetchQuotaWith (client : Client) (clock : ℤ) (provider : Provider) (authName : String) (entry : AuthFileEntry) :
    Except Raised QuotaResponse :=
  { service with client, clock }.fetchQuota provider authName entry

/-- The seconds that a list of auth files stays fresh. -/
def listTtl : ℚ := service.successTtl / microsPerSecond

/-- The seconds that an envelope stays fresh. -/
def quotaTtl (response : QuotaResponse) : ℚ := (response.staleAt - response.fetchedAt) / microsPerSecond

end Service

namespace System

variable (service : Service) (s : System)

/-- The rest of a task after its auth file is found. -/
def proceed (task : ℕ) (request : Request) (provider : Provider) (entry : AuthFileEntry) : System :=
  match request with
  | .get account =>
    { s.setTask task (.looking account provider entry) with
      quotas := s.quotas.getOrFetch task account.cacheKey Service.quotaTtl
      log := s.log ++ [.begin_ task account.cacheKey Service.quotaTtl] }
  | .reset account requestId =>
    if provider.canReset then
      s.setTask task (.resetting account requestId
        (Codex.buildResetApiCallPayload entry.apiRef entry.chatgptAccountId requestId))
    else
      let providerId := account.providerId
      s.setTask task (.raised request
        (.capability s!"Provider '{providerId}' does not support manual quota resets"))

/-- The rest of a task after its call for the list is done. -/
def advance (task : ℕ) : System :=
  match s.tasks task, s.authFiles.calls task with
  | some (.listing request provider), some (.done _ outcome) =>
    match outcome with
    | .raised exc => s.setTask task (.raised request (.raised exc))
    | .returned files =>
      match service.resolveFrom files request.account with
      | .error e => s.setTask task (.raised request (.raised (.fetch e)))
      | .ok entry => s.proceed task request provider entry
  | _, _ => s

/-- The task that a step resumes, if any, goes on to its next `await`. -/
def advance? : Option ℕ → System
  | none => s
  | some task => s.advance service task

def begin_ (task : ℕ) (request : Request) : System :=
  match service.provider request.account.providerId with
  | .error e => s.setTask task (.raised request (.raised (.fetch e)))
  | .ok provider =>
    { s.setTask task (.listing request provider) with
      authFiles := s.authFiles.getOrFetch task () fun _ => service.listTtl }.advance service task

/-- The rest of a reset after the endpoint's answer. -/
def answered (task : ℕ) (account : Account) (requestId : String) (reply : Except (Exc Raised) ApiCallResponse) :
    System :=
  let raise exc := s.setTask task (.raised (.reset account requestId) exc)
  match reply with
  | .error exc => raise (.raised exc)
  | .ok response =>
    match response.statusCode.between 200 300, service.runtime.str response.statusCode with
    | .ok true, _ =>
      { s.setTask task (.returned account requestId) with
        quotas := s.quotas.invalidate account.cacheKey
        log := s.log ++ [.invalidate account.cacheKey] }
    | .ok false, .ok status => raise (.reset s!"Reset endpoint returned HTTP {status}" response.statusCode)
    | .ok false, .error e | .error e, _ => raise (.raised (.fetch (.uncaught e)))

end System

/-- One step of the event loop, or none when the event cannot happen. -/
def step (service : Service) (s : System) : Event → Option System
  | .begin_ task request =>
    match s.tasks task with
    | none => some (s.begin_ service task request)
    | some _ => none
  | .list e =>
    if listEvent e then
      (Cache.step s.authFiles e).map fun authFiles => { s with authFiles }.advance? service e.call?
    else none
  | .fetched task client clock =>
    match s.tasks task with
    | some (.looking account provider entry) =>
      match service.fetchQuotaWith client clock provider account.authName entry with
      | .ok response => s.quotaStep (.fetched task response)
      | .error e => s.quotaStep (.failed task e)
    | _ => none
  | .quota e => if quotaEvent e then s.quotaStep e else none
  | .answered task reply =>
    match s.tasks task with
    | some (.resetting account requestId _) => some (s.answered service task account requestId reply)
    | _ => none
  | .tick seconds => do
    let authFiles ← Cache.step s.authFiles (.tick seconds)
    { s with authFiles }.quotaStep (.tick seconds)

end CliproxyUsage.Quota
