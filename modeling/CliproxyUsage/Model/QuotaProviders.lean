import CliproxyUsage.Model.QuotaClient
import CliproxyUsage.ToMathlib.ExceptSort
import Mathlib.Data.Bool.Basic
import Mathlib.Data.List.ReduceOption
import Mathlib.Data.List.Sort

/-! # Quota providers

The requests of the two providers and their parsers. A parser reads any JSON value: shapes that it
does not know are skipped or rejected as a schema error, and the numbers and dates of a known shape
are converted, which may raise what it does not catch.
-/

namespace CliproxyUsage.Quota

open Python

namespace Codex

def userAgent : String := "codex_cli_rs/0.76.0 (Debian 13.0.0; x86_64) WindowsTerminal"

def resetCreditsUrl : String := "https://chatgpt.com/backend-api/wham/rate-limit-reset-credits"

def baseHeaders (accountId : Option String) : List (String × String) :=
  [("Authorization", "Bearer $TOKEN$"), ("User-Agent", userAgent)] ++
    (accountId.map fun id => ("Chatgpt-Account-Id", id)).toList

def buildApiCallPayload (authName : String) : Payload where
  authIndex := authName
  method := "GET"
  url := "https://chatgpt.com/backend-api/wham/usage"
  header := [("Authorization", "Bearer $TOKEN$"), ("User-Agent", userAgent)]

def buildResetCreditsApiCallPayload (authName : String) (accountId : Option String) : Payload where
  authIndex := authName
  method := "GET"
  url := resetCreditsUrl
  header := baseHeaders accountId ++
    [("Accept", "application/json"), ("OpenAI-Beta", "codex-1"), ("Originator", "Codex Desktop")]

/-- A label, named unless the name is missing or empty. -/
def windowLabel (limitName : Option String) (duration : Json) : String :=
  let labelled := fun named alone : String =>
    match limitName with
    | none => alone
    | some name => if name = "" then alone else name ++ named
  if duration.equalsInt 18000 then labelled " 5-hour limit" "5-hour limit"
  else if duration.equalsInt 604800 then labelled " Weekly limit" "Weekly limit"
  else labelled " limit" "Account limit"

def windowFromRaw (windowId label : String) (usedPercent resetAt : Json) : Except Raised QuotaWindow :=
  if ¬usedPercent.isNumber then .error (.schema s!"Expected numeric used_percent for Codex window '{windowId}'")
  else if ¬resetAt.isNumber then .error (.schema s!"Expected numeric reset_at for Codex window '{windowId}'")
  else do
    let used ← uncaught usedPercent.toFloat
    let resetsAt ← uncaught resetAt.fromTimestamp
    .ok ⟨windowId, label, some used, some resetsAt⟩

/-- The window under a key of a rate limit, if it is a dict. -/
def appendWindowFromRateLimit (windowId : String) (limitName : Option String) (rateLimit : List (String × Json))
    (key : String) : Except Raised (List QuotaWindow) :=
  match Json.get rateLimit key with
  | .dict rawWindow => do
    let window ← windowFromRaw windowId (windowLabel limitName (Json.get rawWindow "limit_window_seconds"))
      (Json.get rawWindow "used_percent") (Json.get rawWindow "reset_at")
    .ok [window]
  | _ => .ok []

/-- The primary and secondary windows of a rate limit, if it is a dict. -/
def rateLimitWindows (heading : String) (limitName : Option String) (value : Json) :
    Except Raised (List QuotaWindow) :=
  match value with
  | .dict rateLimit => do
    let primary ← appendWindowFromRateLimit (heading ++ "primary") limitName rateLimit "primary_window"
    let secondary ← appendWindowFromRateLimit (heading ++ "secondary") limitName rateLimit "secondary_window"
    .ok (primary ++ secondary)
  | _ => .ok []

/-- The windows of an entry of `additional_rate_limits`. -/
def additionalWindows (entry : Json) : Except Raised (List QuotaWindow) :=
  match entry with
  | .dict members =>
    match Json.get members "limit_name" with
    | .str limitName =>
      if (members.lookup "used_percent").isSome ∨ (members.lookup "reset_at").isSome then do
        let window ← windowFromRaw s!"additional:{limitName}"
          (windowLabel (some limitName) (Json.get members "limit_window_seconds"))
          (Json.get members "used_percent") (Json.get members "reset_at")
        .ok [window]
      else rateLimitWindows s!"additional:{limitName}:" (some limitName) (Json.get members "rate_limit")
    | _ => .ok []
  | _ => .ok []

def nonNegativeInt : Json → Option ℕ
  | .int n => if n < 0 then none else some n.toNat
  | _ => none

def manualResets (members : List (String × Json)) : Option ManualResetSummary :=
  match Json.get members "rate_limit_reset_credits" with
  | .dict raw => (nonNegativeInt (Json.get raw "available_count")).map fun count => { availableCount := count }
  | _ => none

def parsePlanType (runtime : Runtime) (plan : Json) : Except Raised (Option String) :=
  match plan with
  | .null => .ok none
  | plan => do
    let text ← uncaught (runtime.str plan)
    .ok (some text)

def parse (runtime : Runtime) (authName : String) (upstreamBody : Json) : Except Raised ProviderQuota :=
  match upstreamBody with
  | .dict members => do
    let planType ← parsePlanType runtime (Json.get members "plan_type")
    let windows ← rateLimitWindows "" none (Json.get members "rate_limit")
    let additional ← match Json.get members "additional_rate_limits" with
      | .list entries => entries.mapM additionalWindows
      | _ => .ok []
    .ok
      { provider := .codex
        authName
        planType
        windows := windows ++ additional.flatten
        manualResets := manualResets members }
  | other =>
    let name := other.typeName
    .error (.schema s!"Expected a dict for Codex quota body, got {name}")

def parseInstant : Json → Option DateTime
  | .str value => fromIsoFormat value
  | _ => none

/-- A credit that is available and expires at a known time; others are skipped. -/
def parseCredit (runtime : Runtime) (entry : Json) : Except Raised (Option ManualResetCredit) :=
  match entry with
  | .dict members =>
    if ¬(Json.get members "reset_type").equalsStr "codex_rate_limits" then .ok none
    else if ¬(Json.get members "status").equalsStr "available" then .ok none
    else match parseInstant (Json.get members "expires_at") with
      | none => .ok none
      | some expiresAt => do
        let id ← uncaught (runtime.str ((members.lookup "id").getD (.str "")))
        .ok (some ⟨id, expiresAt⟩)
  | _ => .ok none

/-- `first < second`; a naive and an aware `datetime` do not compare. -/
def before (first second : ManualResetCredit) : Except PyError Bool :=
  match first.expiresAt.offset, second.expiresAt.offset with
  | none, none => .ok (first.expiresAt.wall < second.expiresAt.wall)
  | some offset, some offset' => .ok (first.expiresAt.wall - offset < second.expiresAt.wall - offset')
  | _, _ => .error .typeError

def parseResetCredits (runtime : Runtime) (upstreamBody : Json) : Except Raised ManualResetSummary :=
  match upstreamBody with
  | .dict members =>
    match Json.get members "credits" with
    | .list rawCredits => do
      let found ← rawCredits.mapM (parseCredit runtime)
      let credits ← uncaught (found.reduceOption.sortM before)
      let count := nonNegativeInt (Json.get members "available_count")
      .ok { availableCount := count.getD credits.length, credits }
    | _ => .error (.schema "Codex reset-credits body has no 'credits' list")
  | _ => .error (.schema "Codex reset-credits body has no 'credits' list")

end Codex

namespace Claude

def buildApiCallPayload (authName : String) : Payload where
  authIndex := authName
  method := "GET"
  url := "https://api.anthropic.com/api/oauth/usage"
  header := [("Authorization", "Bearer $TOKEN$"), ("anthropic-beta", "oauth-2025-04-20")]

def windowLabels : List (String × String) :=
  [("five_hour", "Five Hour"), ("seven_day", "Seven Day"), ("seven_day_oauth_apps", "Seven Day (OAuth Apps)"),
    ("seven_day_opus", "Seven Day (Opus)"), ("seven_day_sonnet", "Seven Day (Sonnet)"),
    ("seven_day_cowork", "Seven Day (Cowork)"), ("seven_day_omelette", "Seven Day (Omelette)"),
    ("omelette_promotional", "Omelette Promotional"), ("seven_day_fable", "7-day Fable 5")]

def fableWindowId : String := "seven_day_fable"

def fableNames : List String := ["fable", "fable 5"]

def keyToLabel (runtime : Runtime) (key : String) : String :=
  (windowLabels.lookup key).getD (runtime.title (key.map fun c => if c = '_' then ' ' else c))

/-- A dict with a numeric `utilization` and a `resets_at` of any value. -/
def isWindowShape : Json → Bool
  | .dict members => (members.lookup "resets_at").isSome && (Json.get members "utilization").isNumber
  | _ => false

/-- The conversion of `resets_at`: a null stays null. -/
def parseResetsAt (runtime : Runtime) (raw : Json) : Except PyError (Option DateTime) :=
  match raw with
  | .null => .ok none
  | raw => do
    let text ← runtime.str raw
    match fromIsoFormat text with
    | none => .error .valueError
    | some at_ => .ok (some at_)

def parseWindow (runtime : Runtime) (key : String) (value : List (String × Json)) : Except Raised QuotaWindow :=
  match parseResetsAt runtime (Json.get value "resets_at") with
  | .error .valueError => .error (.schema s!"Bad resets_at for Claude window '{key}'")
  | .error e => .error (.uncaught e)
  | .ok resetsAt => do
    let used ← uncaught (Json.get value "utilization").toFloat
    .ok ⟨key, keyToLabel runtime key, some used, resetsAt⟩

/-- The fields of a limit as a window shape, for a weekly limit scoped to a Fable model. -/
def fableShape (runtime : Runtime) (limit : Json) : Option (List (String × Json)) := do
  let members ← limit.dict?
  if ¬(Json.get members "kind").equalsStr "weekly_scoped" then none
  let scope ← (Json.get members "scope").dict?
  let model ← (Json.get scope "model").dict?
  match Json.get model "display_name" with
  | .str name =>
    let shape := [("utilization", Json.get members "percent"), ("resets_at", Json.get members "resets_at")]
    if runtime.lower name ∈ fableNames ∧ isWindowShape (.dict shape) then some shape else none
  | _ => none

def fableLimitWindow (runtime : Runtime) (limit : Json) : Except Raised (Option QuotaWindow) :=
  match fableShape runtime limit with
  | none => .ok none
  | some shape =>
    match parseWindow runtime fableWindowId shape with
    | .ok window => .ok (some window)
    | .error (.schema _) => .ok none
    | .error e => .error e

/-- `limit.get("is_active") is not True`. -/
def inactive (limit : Json) : Bool := !(Json.get (limit.dict?.getD []) "is_active").isTrue

/-- The active limit of a Fable model, else the first one. -/
def fableWindow (runtime : Runtime) (members : List (String × Json)) : Except Raised (Option QuotaWindow) :=
  match Json.get members "limits" with
  | .list limits => do
    let found ← limits.mapM fun limit => do
      let window ← fableLimitWindow runtime limit
      .ok (window.map fun window => (limit, window))
    let sorted := found.reduceOption.insertionSort fun first second => inactive first.1 ≤ inactive second.1
    .ok (sorted.head?.map Prod.snd)
  | _ => .ok none

/-- The members of a body that are windows, as dicts. -/
def windowMembers (members : List (String × Json)) : List (String × List (String × Json)) :=
  members.filterMap fun (key, value) =>
    if key ≠ "limits" ∧ isWindowShape value then value.dict?.map fun window => (key, window) else none

def parse (runtime : Runtime) (authName : String) (upstreamBody : Json) : Except Raised ProviderQuota :=
  match upstreamBody with
  | .dict members => do
    let windows ← (windowMembers members).mapM fun (key, value) => parseWindow runtime key value
    let fable ← fableWindow runtime members
    .ok { provider := .claude, authName, planType := none, windows := windows ++ fable.toList }
  | other =>
    let name := other.typeName
    .error (.schema s!"Expected a dict for Claude quota body, got {name}")

end Claude

end CliproxyUsage.Quota
