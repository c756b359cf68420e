import CliproxyUsage.JavaScript.Url
import CliproxyUsage.Model.App

/-! # Requests of the page

The paths that the page asks for, from the runtime configuration that the server writes into it.
-/

namespace CliproxyUsage.Frontend

open JavaScript

/-- The runtime configuration; what the page does not find in it is missing. -/
structure RuntimeConfig where
  basePath : Option String
  apiBase : Option String
deriving DecidableEq, Repr

def normalizeBasePath (value : Option String) : String :=
  match value with
  | none => "/"
  | some value =>
    if value = "" ∨ value = "/" then "/"
    else if value.toList.getLast? = some '/' then String.ofList value.toList.dropLast else value

def RuntimeConfig.api (raw : RuntimeConfig) : String :=
  let basePath := normalizeBasePath raw.basePath
  raw.apiBase.getD (if basePath = "/" then "/api" else basePath ++ "/api")

def apiPath (raw : RuntimeConfig) (path : String) : String := raw.api ++ path

def accountPath (provider authName : String) : String :=
  "/quota/" ++ provider ++ "/" ++ String.ofList (encodeURIComponent authName)

/-- `window.__CLIPROXY_USAGE_CONFIG__` as `usage-config.js` sets it. -/
def servedConfig (app : App) : RuntimeConfig := ⟨some app.basePath, some (prefixed app.basePath "/api")⟩

/-- The paths of `fetchQuota` and of `resetQuota`, as they are sent. -/
def fetchQuotaPath (raw : RuntimeConfig) (provider authName : String) : List Char :=
  requestPath (apiPath raw (accountPath provider authName)).toList

def resetQuotaPath (raw : RuntimeConfig) (provider authName : String) : List Char :=
  requestPath (apiPath raw (accountPath provider authName ++ "/reset")).toList

end CliproxyUsage.Frontend
