import CliproxyUsage.Model.QuotaProviders

/-! # The quota service

A lookup of one account: it serves a fresh envelope, or asks the provider's endpoint and wraps the
answer. The errors of the quota module that the endpoint and the parsers raise become error
envelopes; any other exception leaves the lookup.
-/

namespace CliproxyUsage.Quota

open Python

namespace Provider

def buildApiCallPayload : Provider → String → Payload
  | .claude => Claude.buildApiCallPayload
  | .codex => Codex.buildApiCallPayload

def parse (runtime : Runtime) (authName : String) : Provider → Json → Except Raised ProviderQuota
  | .claude => Claude.parse runtime authName
  | .codex => Codex.parse runtime authName

/-- `isinstance(provider, ResetCreditsProvider)`. -/
def hasResetCredits : Provider → Bool
  | .claude => false
  | .codex => true

end Provider

/-- The registry. -/
def providers : List (String × Provider) := [("claude", .claude), ("codex", .codex)]

def oauthError (runtime : Runtime) (status : Json) : Except Raised QuotaError := do
  let kind : ErrorKind :=
    if status.equalsInt 401 ∨ status.equalsInt 403 then .auth
    else if status.equalsInt 429 then .rateLimited
    else .upstream
  let text ← uncaught (runtime.str status)
  match runtime.optionalInt status with
  | none => .error (.uncaught .validationError)
  | some upstreamStatus => .ok ⟨kind, s!"OAuth endpoint returned HTTP {text}", upstreamStatus⟩

/-- A 5xx of the management endpoint is "upstream", anything else "transient". -/
def upstreamError (exc : QuotaUpstreamError) : QuotaError where
  kind := if exc.upstreamStatus.any (500 ≤ ·) then .upstream else .transient
  message := exc.message
  upstreamStatus := exc.upstreamStatus

/-- The service at one lookup: what its client answers, the clock, the TTLs in microseconds, and the
envelopes that are still fresh. -/
structure Service where
  runtime : Runtime
  client : Client
  successTtl : ℤ
  errorTtl : ℤ
  clock : ℤ
  quotas : String → Option QuotaResponse

namespace Service

variable (service : Service)

def provider (providerId : String) : Except Raised Provider :=
  match providers.lookup providerId with
  | some provider => .ok provider
  | none => do
    let known ← uncaught (service.runtime.str (.list (providers.map fun entry => .str entry.1)))
    .error (.config s!"Unknown provider '{providerId}'. Known providers: {known}")

def resolveAuthEntry (providerId authName : String) : Except Raised AuthFileEntry := do
  let authFiles ← service.client.listAuthFiles.mapError .upstream
  match authFiles.find? fun entry => entry.type = providerId ∧ entry.name = authName with
  | some entry => .ok entry
  | none => do
    let names := (authFiles.filter fun entry => entry.type = providerId).map AuthFileEntry.name
    let known ← uncaught (service.runtime.str (.list ((names.insertionSort (· ≤ ·)).map .str)))
    .error (.config
      s!"Auth file '{authName}' not found for provider '{providerId}'. Known files: {known}")

def envelope (quota : Option ProviderQuota) (error : Option QuotaError) : Except Raised QuotaResponse :=
  let staleAt := service.clock + if error.isNone then service.successTtl else service.errorTtl
  if ¬InRange staleAt then .error (.uncaught .overflowError)
  else if exactlyOne : quota.isSome ≠ error.isSome then .ok ⟨quota, error, service.clock, staleAt, exactlyOne⟩
  else .error (.uncaught .validationError)

/-- The reset credits of an account: a status outside 200 to 299 is an upstream error. -/
def resetCredits (entry : AuthFileEntry) : Except Raised ManualResetSummary := do
  let response ← service.client.apiCall service.runtime
    (Codex.buildResetCreditsApiCallPayload entry.apiRef entry.chatgptAccountId)
  let success ← uncaught (response.statusCode.between 200 300)
  if success then Codex.parseResetCredits service.runtime response.body
  else do
    let status ← uncaught (service.runtime.str response.statusCode)
    .error (.upstream ⟨s!"Reset credits endpoint returned HTTP {status}", none⟩)

/-- A quota whose reset credits could not be read. -/
def creditsFailed (quota : ProviderQuota) (message : String) : ProviderQuota :=
  match quota.manualResets with
  | none => quota
  | some resets => { quota with manualResets := some { resets with creditsError := some message } }

def attachResetCredits (quota : ProviderQuota) (entry : AuthFileEntry) : Except Raised ProviderQuota :=
  match service.resetCredits entry with
  | .error (.upstream exc) => .ok (creditsFailed quota exc.message)
  | .error (.schema message) => .ok (creditsFailed quota message)
  | .error e => .error e
  | .ok summary =>
    let summary := match quota.manualResets with
      | none => summary
      | some resets => { summary with availableCount := resets.availableCount }
    .ok { quota with manualResets := some summary }

/-- The usage call: the vendor's status as an error, or the parsed quota. -/
def usage (provider : Provider) (authName : String) (entry : AuthFileEntry) :
    Except Raised (QuotaError ⊕ ProviderQuota) := do
  let response ← service.client.apiCall service.runtime (provider.buildApiCallPayload entry.apiRef)
  if ¬response.statusCode.equalsInt 200 then do
    let error ← oauthError service.runtime response.statusCode
    .ok (.inl error)
  else do
    let quota ← provider.parse service.runtime authName response.body
    .ok (.inr quota)

def fetchQuota (provider : Provider) (authName : String) (entry : AuthFileEntry) : Except Raised QuotaResponse :=
  match service.usage provider authName entry with
  | .ok (.inl error) => service.envelope none (some error)
  | .error (.upstream exc) => service.envelope none (some (upstreamError exc))
  | .error (.schema message) => service.envelope none (some ⟨.schema, message, none⟩)
  | .error e => .error e
  | .ok (.inr quota) =>
    let attached := if provider.hasResetCredits then service.attachResetCredits quota entry else .ok quota
    do
      let quota ← attached
      service.envelope (some quota) none

/-- The key under which envelopes are cached. -/
def cacheKey (providerId authName : String) : String := s!"{providerId}::{authName}"

def getQuota (providerId authName : String) : Except Raised QuotaResponse := do
  let provider ← service.provider providerId
  let entry ← service.resolveAuthEntry providerId authName
  match service.quotas (cacheKey providerId authName) with
  | some response => .ok response
  | none => service.fetchQuota provider authName entry

end Service

end CliproxyUsage.Quota
