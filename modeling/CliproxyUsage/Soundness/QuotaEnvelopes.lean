import CliproxyUsage.Model.QuotaService
import CliproxyUsage.Proofs.QuotaProviders
import CliproxyUsage.Python.Text

/-! # Quota lookups return envelopes

Which replies of the management endpoint keep a lookup from raising: those whose statuses, numbers,
dates and bodies can be converted wherever the service converts them. On these the envelope holds a
quota exactly when the usage call succeeds, whatever the reset credits do.
-/

namespace CliproxyUsage.Quota

open Python

section Client

variable {runtime : Runtime} {client : Client} {payload : Payload}

/-- The status and the body of a reply; none when it is an upstream error. -/
def Client.reply? (client : Client) (payload : Payload) : Option (Json × Json) :=
  match client.request payload with
  | .ok (.dict members) => (members.lookup "status_code").map fun status => (status, Json.get members "body")
  | _ => none

/-- Parsing a body that is a string fails with `ValueError` at most. -/
def Loads (runtime : Runtime) (raw : Json) : Prop :=
  match raw with
  | .str text => ∀ e, runtime.loads text = .error e → e = .valueError
  | _ => True

/-- The body that a provider reads. -/
def decoded (runtime : Runtime) (raw : Json) : Json :=
  match raw with
  | .str text => (runtime.loads text).toOption.getD raw
  | _ => raw

private theorem parseBody_loads {raw : Json} (loads : Loads runtime raw) :
    parseBody runtime raw = .ok (decoded runtime raw) := by
  cases raw with
  | str text =>
    rw [parseBody, decoded]
    cases parsed : runtime.loads text with
    | ok body => rfl
    | error e =>
      cases loads e parsed
      rfl
  | _ => rfl

private theorem caught_parseBody {raw : Json} : Caught (parseBody runtime raw) ↔ Loads runtime raw := by
  constructor
  · intro caught
    cases raw with
    | str text =>
      intro e failed
      rw [parseBody, failed] at caught
      cases e with
      | valueError => rfl
      | _ => exact absurd caught (not_caught _)
    | _ => trivial
  · intro loads
    rw [parseBody_loads loads]
    exact caught_ok _

private theorem apiCall_none (failed : client.reply? payload = none) :
    ∃ exc, client.apiCall runtime payload = .error (.upstream exc) := by
  rw [Client.reply?] at failed
  rw [Client.apiCall]
  cases reply : client.request payload with
  | error exc => exact ⟨exc, rfl⟩
  | ok data =>
    rw [reply] at failed
    cases data with
    | dict members =>
      have missing : members.lookup "status_code" = none := Option.map_eq_none_iff.mp failed
      refine ⟨⟨"api-call has an unexpected shape: 'status_code'", none⟩, ?_⟩
      simp only [Except.mapError, Except.bind_def, Except.bind_ok, readReply, missing]
    | _ => exact ⟨_, rfl⟩

private theorem apiCall_some {status raw : Json} (answered : client.reply? payload = some (status, raw)) :
    client.apiCall runtime payload = (parseBody runtime raw).bind fun body => .ok ⟨status, body⟩ := by
  rw [Client.reply?] at answered
  rw [Client.apiCall]
  cases reply : client.request payload with
  | error exc =>
    rw [reply] at answered
    cases answered
  | ok data =>
    rw [reply] at answered
    cases data with
    | dict members =>
      obtain ⟨_, found, same⟩ := Option.map_eq_some_iff.mp answered
      cases same
      simp only [Except.mapError, Except.bind_def, Except.bind_ok, readReply, found]
    | _ => cases answered

end Client

/-- A value that `str` prints. -/
def Printable (runtime : Runtime) (value : Json) : Prop := ∃ text, runtime.str value = .ok text

namespace Provider

def Readable (runtime : Runtime) : Provider → Json → Prop
  | .claude => Claude.Readable runtime
  | .codex => Codex.Readable runtime

/-- A body that is no schema error. -/
def Complete (runtime : Runtime) : Provider → Json → Prop
  | .claude => Claude.Complete runtime
  | .codex => Codex.Complete

theorem parse_caught_iff {runtime : Runtime} (provider : Provider) (authName : String) (body : Json) :
    Caught (provider.parse runtime authName body) ↔ provider.Readable runtime body := by
  cases provider with
  | claude => exact Claude.parse_caught_iff authName body
  | codex => exact Codex.parse_caught_iff authName body

theorem parse_ok_iff {runtime : Runtime} {provider : Provider} (authName : String) {body : Json}
    (readable : provider.Readable runtime body) :
    (∃ quota, provider.parse runtime authName body = .ok quota) ↔ provider.Complete runtime body := by
  cases provider with
  | claude => exact Claude.parse_ok_iff authName readable
  | codex => exact Codex.parse_ok_iff authName readable

end Provider

namespace Service

variable {service : Service} {provider : Provider} {authName : String} {entry : AuthFileEntry}

/-- The status of a rejected call can be printed and is an `int | None` to pydantic. -/
def StatusReported (service : Service) (status : Json) : Prop :=
  Printable service.runtime status ∧ (service.runtime.optionalInt status).isSome

/-- The reply to the usage call raises nothing that is not caught. -/
def UsageHarmless (service : Service) (provider : Provider) (entry : AuthFileEntry) : Prop :=
  match service.client.reply? (provider.buildApiCallPayload entry.apiRef) with
  | none => True
  | some (status, raw) =>
    Loads service.runtime raw ∧
      if status.equalsInt 200 then provider.Readable service.runtime (decoded service.runtime raw)
      else service.StatusReported status

/-- The usage call succeeds: status 200, and a body that is no schema error. -/
def UsageComplete (service : Service) (provider : Provider) (entry : AuthFileEntry) : Prop :=
  match service.client.reply? (provider.buildApiCallPayload entry.apiRef) with
  | none => False
  | some (status, raw) =>
    status.equalsInt 200 ∧ provider.Complete service.runtime (decoded service.runtime raw)

/-- The reply to the reset-credits call raises nothing that is not caught. -/
def CreditsHarmless (service : Service) (entry : AuthFileEntry) : Prop :=
  match service.client.reply? (Codex.buildResetCreditsApiCallPayload entry.apiRef entry.chatgptAccountId) with
  | none => True
  | some (status, raw) =>
    Loads service.runtime raw ∧ status.isNumber ∧
      if status.between 200 300 = .ok true then Codex.CreditsReadable service.runtime (decoded service.runtime raw)
      else Printable service.runtime status

/-- Every conversion of a lookup succeeds, the expiry of its envelope included. -/
def Harmless (service : Service) (provider : Provider) (entry : AuthFileEntry) : Prop :=
  service.UsageHarmless provider entry ∧
    (service.UsageComplete provider entry → (provider.hasResetCredits → service.CreditsHarmless entry) ∧
      InRange (service.clock + service.successTtl)) ∧
    (¬service.UsageComplete provider entry → InRange (service.clock + service.errorTtl))

section Usage

private theorem caught_oauthError {runtime : Runtime} {status : Json} :
    Caught (oauthError runtime status) ↔ Printable runtime status ∧ (runtime.optionalInt status).isSome := by
  simp only [oauthError, Except.bind_def]
  rw [caught_bind, caught_uncaught, Printable]
  refine and_congr_right fun ⟨text, printed⟩ => ?_
  cases runtime.optionalInt status with
  | none => simp [printed, not_caught]
  | some upstream => simp [caught_ok]

/-- The usage call on a reply that could be decoded. -/
private theorem usage_some {status raw : Json}
    (answered : service.client.reply? (provider.buildApiCallPayload entry.apiRef) = some (status, raw)) :
    service.usage provider authName entry = (parseBody service.runtime raw).bind fun body =>
      if status.equalsInt 200 then (provider.parse service.runtime authName body).bind fun quota => .ok (.inr quota)
      else (oauthError service.runtime status).bind fun error => .ok (.inl error) := by
  rw [usage, apiCall_some answered]
  cases parseBody service.runtime raw with
  | error e => rfl
  | ok body =>
    simp only [Except.bind_def, Except.bind_ok, ite_not]

private theorem usage_caught_iff :
    Caught (service.usage provider authName entry) ↔ service.UsageHarmless provider entry := by
  rw [UsageHarmless]
  cases answered : service.client.reply? (provider.buildApiCallPayload entry.apiRef) with
  | none =>
    obtain ⟨exc, failed⟩ := @apiCall_none service.runtime _ _ answered
    rw [usage, failed]
    exact iff_of_true (caught_upstream exc) trivial
  | some reply =>
    obtain ⟨status, raw⟩ := reply
    rw [usage_some answered, caught_bind, caught_parseBody]
    refine and_congr_right fun loads => ?_
    rw [parseBody_loads loads]
    simp only [Except.ok.injEq, forall_eq']
    split
    · rw [caught_bind, provider.parse_caught_iff, and_iff_left fun quota _ => caught_ok _]
    · rw [caught_bind, caught_oauthError, and_iff_left fun error _ => caught_ok _, StatusReported]

private theorem usage_inr_iff (harmless : service.UsageHarmless provider entry) :
    (∃ quota, service.usage provider authName entry = .ok (.inr quota)) ↔ service.UsageComplete provider entry := by
  rw [UsageHarmless] at harmless
  rw [UsageComplete]
  cases answered : service.client.reply? (provider.buildApiCallPayload entry.apiRef) with
  | none =>
    obtain ⟨exc, failed⟩ := @apiCall_none service.runtime _ _ answered
    rw [usage, failed]
    simp [Except.bind_def]
  | some reply =>
    obtain ⟨status, raw⟩ := reply
    rw [answered] at harmless
    obtain ⟨loads, readable⟩ := harmless
    rw [usage_some answered, parseBody_loads loads, Except.bind_ok]
    dsimp only
    split at readable
    · next success =>
      rw [if_pos success, ← Provider.parse_ok_iff authName readable]
      simp [success, Except.bind_eq_ok]
    · next rejected =>
      rw [if_neg rejected]
      simp [rejected, Except.bind_eq_ok]

end Usage

section Credits

private theorem caught_resetCredits : Caught (service.resetCredits entry) ↔ service.CreditsHarmless entry := by
  rw [CreditsHarmless, resetCredits]
  cases answered : service.client.reply?
      (Codex.buildResetCreditsApiCallPayload entry.apiRef entry.chatgptAccountId) with
  | none =>
    obtain ⟨exc, failed⟩ := @apiCall_none service.runtime _ _ answered
    rw [failed]
    exact iff_of_true (caught_upstream exc) trivial
  | some reply =>
    obtain ⟨status, raw⟩ := reply
    rw [apiCall_some answered]
    simp only [Except.bind_def]
    rw [caught_bind, caught_bind, caught_parseBody, and_iff_left fun body _ => caught_ok _]
    refine and_congr_right fun loads => ?_
    rw [parseBody_loads loads, Except.bind_ok]
    simp only [Except.ok.injEq, forall_eq']
    rw [caught_bind, caught_uncaught, Json.between_ok_iff]
    refine and_congr_right fun number => ?_
    obtain ⟨inside, compared⟩ := (@Json.between_ok_iff 200 300 status).mpr number
    rw [compared]
    cases inside with
    | true => simp [Codex.parseResetCredits_caught_iff]
    | false => simp [caught_bind, caught_uncaught, caught_upstream, Printable]

end Credits

section Lookup

private theorem envelope_of_fits {quota : Option ProviderQuota} {error : Option QuotaError}
    (exactlyOne : quota.isSome ≠ error.isSome)
    (fits : InRange (service.clock + if error.isNone then service.successTtl else service.errorTtl)) :
    ∃ response, service.envelope quota error = .ok response ∧ response.quota = quota := by
  refine ⟨⟨quota, error, service.clock,
    service.clock + if error.isNone then service.successTtl else service.errorTtl, exactlyOne⟩, ?_, rfl⟩
  rw [envelope]
  exact (if_neg (not_not.mpr fits)).trans (dif_pos exactlyOne)

private theorem fits_of_envelope {quota : Option ProviderQuota} {error : Option QuotaError} {response : QuotaResponse}
    (wrapped : service.envelope quota error = .ok response) :
    InRange (service.clock + if error.isNone then service.successTtl else service.errorTtl) := by
  rw [envelope] at wrapped
  by_contra past
  rw [if_pos past] at wrapped
  cases wrapped

/-- Only what the reset-credits call lets through keeps a quota from being merged. -/
private theorem attachResetCredits_ok_iff {quota : ProviderQuota} :
    (∃ merged, service.attachResetCredits quota entry = .ok merged) ↔ service.CreditsHarmless entry := by
  rw [← caught_resetCredits, attachResetCredits]
  cases service.resetCredits entry with
  | ok summary => simp [caught_ok]
  | error e =>
    cases e with
    | upstream exc => simp [caught_upstream]
    | schema message => simp [caught_schema]
    | config message =>
      refine iff_of_false (by simp) fun caught => ?_
      exact caught _ rfl trivial
    | uncaught exc => exact iff_of_false (by simp) (not_caught exc)

private theorem fetchQuota_iff :
    (∃ response, service.fetchQuota provider authName entry = .ok response ∧
        (response.quota.isSome ↔ ∃ quota, service.usage provider authName entry = .ok (.inr quota))) ↔
      service.Harmless provider entry := by
  constructor
  · rintro ⟨response, fetched, _⟩
    rw [fetchQuota] at fetched
    have caught : Caught (service.usage provider authName entry) := by
      intro e raised escapes
      rw [raised] at fetched
      cases e with
      | upstream exc => exact escapes
      | schema message => exact escapes
      | config message => cases fetched
      | uncaught exc => cases fetched
    have harmless := usage_caught_iff.mp caught
    refine ⟨harmless, ?_, ?_⟩
    · intro complete
      obtain ⟨quota, used⟩ := (@usage_inr_iff _ _ authName _ harmless).mpr complete
      rw [used] at fetched
      obtain ⟨merged, attached, wrapped⟩ := Except.bind_eq_ok.mp fetched
      refine ⟨?_, fits_of_envelope wrapped⟩
      intro credits
      rw [if_pos credits] at attached
      exact attachResetCredits_ok_iff.mp ⟨merged, attached⟩
    · intro incomplete
      cases used : service.usage provider authName entry with
      | ok outcome =>
        rw [used] at fetched
        cases outcome with
        | inl error => exact fits_of_envelope fetched
        | inr quota => exact absurd ((usage_inr_iff harmless).mp ⟨quota, used⟩) incomplete
      | error e =>
        rw [used] at fetched
        cases e with
        | upstream exc => exact fits_of_envelope fetched
        | schema message => exact fits_of_envelope fetched
        | config message => cases fetched
        | uncaught exc => cases fetched
  · rintro ⟨harmless, success, failure⟩
    by_cases complete : service.UsageComplete provider entry
    · obtain ⟨quota, used⟩ := (@usage_inr_iff _ _ authName _ harmless).mpr complete
      obtain ⟨credits, fits⟩ := success complete
      have merged : ∃ merged, (if provider.hasResetCredits then service.attachResetCredits quota entry
          else Except.ok quota) = .ok merged := by
        split
        · next has => exact attachResetCredits_ok_iff.mpr (credits has)
        · exact ⟨quota, rfl⟩
      obtain ⟨merged, attached⟩ := merged
      obtain ⟨response, wrapped, shown⟩ := @envelope_of_fits service (some merged) none (by simp) fits
      refine ⟨response, ?_, ?_⟩
      · rw [fetchQuota, used]
        exact Except.bind_eq_ok.mpr ⟨merged, attached, wrapped⟩
      · rw [shown, used]
        simp
    · have wrapped : ∃ error, service.fetchQuota provider authName entry = service.envelope none (some error) := by
        rw [fetchQuota]
        cases used : service.usage provider authName entry with
        | ok outcome =>
          cases outcome with
          | inl error => exact ⟨error, rfl⟩
          | inr quota => exact absurd ((usage_inr_iff harmless).mp ⟨quota, used⟩) complete
        | error e =>
          have caught := usage_caught_iff.mpr harmless _ used
          cases e with
          | upstream exc => exact ⟨_, rfl⟩
          | schema message => exact ⟨_, rfl⟩
          | config message => exact absurd trivial caught
          | uncaught exc => exact absurd trivial caught
      obtain ⟨error, fetched⟩ := wrapped
      obtain ⟨response, wrapped, shown⟩ := @envelope_of_fits service none (some error) (by simp) (failure complete)
      refine ⟨response, fetched.trans wrapped, ?_⟩
      rw [shown, usage_inr_iff harmless]
      simp [complete]

end Lookup

end Service

/-- A lookup returns an envelope, with a quota exactly when the usage call succeeds, if and only if an
envelope is still fresh or every conversion of the replies succeeds. -/
theorem lookups_return_envelopes {service : Service} {providerId authName : String} {provider : Provider}
    {authFiles : List AuthFileEntry} {entry : AuthFileEntry}
    (registered : providers.lookup providerId = some provider) (listed : service.client.listAuthFiles = .ok authFiles)
    (present : authFiles.find? (fun entry => entry.type = providerId ∧ entry.name = authName) = some entry) :
    (∃ response, service.getQuota providerId authName = .ok response ∧
        response.quota.isSome ≠ response.error.isSome ∧
        (service.quotas (Service.cacheKey providerId authName) = none →
          (response.quota.isSome ↔ ∃ quota, service.usage provider authName entry = .ok (.inr quota)))) ↔
      service.quotas (Service.cacheKey providerId authName) ≠ none ∨ service.Harmless provider entry := by
  have known : service.provider providerId = .ok provider := by rw [Service.provider, registered]
  have found : service.resolveAuthEntry providerId authName = .ok entry := by
    rw [Service.resolveAuthEntry, listed]
    simp only [Except.mapError, Except.bind_def, Except.bind_ok, present]
  rw [Service.getQuota, known, Except.bind_def, Except.bind_ok, found, Except.bind_def, Except.bind_ok]
  cases fresh : service.quotas (Service.cacheKey providerId authName) with
  | some response =>
    refine iff_of_true ⟨response, rfl, response.exactlyOne, ?_⟩ (.inl (by simp))
    intro absent
    cases absent
  | none =>
    rw [← Service.fetchQuota_iff]
    constructor
    · rintro ⟨response, fetched, _, quota⟩
      exact .inr ⟨response, fetched, quota rfl⟩
    · rintro (other | ⟨response, fetched, quota⟩)
      · exact absurd rfl other
      · exact ⟨response, fetched, response.exactlyOne, fun _ => quota⟩

/-- An interpreter on the values of the lookups below. -/
def plainRuntime : Runtime where
  lower := asciiLower
  title := id
  loads _ := .error .valueError
  str
    | .str text => .ok text
    | .int n => .ok (toString n)
    | .null => .ok "None"
    | _ => .error .recursionError
  optionalInt
    | .null => some none
    | .int n => some (some n)
    | _ => none

def usageReply (resetAt : ℤ) : Json :=
  .dict [("status_code", .int 200), ("body", .dict [("plan_type", .str "plus"), ("rate_limit", .dict
    [("primary_window", .dict
      [("used_percent", .int 25), ("limit_window_seconds", .int 18000), ("reset_at", .int resetAt)])])])]

def codexEntry : AuthFileEntry := { name := "codex.json", type := "codex" }

/-- One Codex account whose window resets at a given time and whose reset credits are not found. -/
def codexService (resetAt : ℤ) : Service where
  runtime := plainRuntime
  client :=
    { listAuthFiles := .ok [codexEntry]
      request := fun payload =>
        if payload.url = Codex.resetCreditsUrl then .ok (.dict [("status_code", .int 404)]) else .ok (usageReply resetAt) }
  successTtl := 300000000
  errorTtl := 60000000
  clock := 1776945600000000
  quotas _ := none

theorem lookups_return_envelopes_codex :
    ∃ response, (codexService 1776950000).getQuota "codex" "codex.json" = .ok response ∧
      response.quota.isSome ≠ response.error.isSome ∧
      ((codexService 1776950000).quotas (Service.cacheKey "codex" "codex.json") = none →
        (response.quota.isSome ↔ ∃ quota,
          (codexService 1776950000).usage .codex "codex.json" codexEntry = .ok (.inr quota))) := by
  have harmless : (codexService 1776950000).Harmless .codex codexEntry := by
    refine ⟨⟨trivial, ?_, ?_⟩, fun _ => ⟨fun _ => ⟨trivial, by decide, ?_⟩, by decide⟩, fun _ => by decide⟩
    · exact fun _ => ⟨"plus", rfl⟩
    · decide +kernel
    · exact ⟨"404", rfl⟩
  exact (@lookups_return_envelopes _ _ _ .codex [codexEntry] codexEntry rfl rfl rfl).mpr (.inr harmless)

/-- A reset time in milliseconds raises an exception that nothing catches. -/
theorem reset_times_escape : (codexService 1776950000000).getQuota "codex" "codex.json" = .error (.uncaught .valueError) := by
  decide +kernel

end CliproxyUsage.Quota
