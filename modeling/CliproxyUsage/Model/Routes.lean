import CliproxyUsage.Model.Usage

/-! # Usage routes

The parameters of a usage request after validation, and the statements it runs: the filters are
resolved first, one statement for each filtered column, and then the query itself.
-/

namespace CliproxyUsage

open Python Machine

/-- Split a comma-separated filter; absent or blank means no filter. -/
def parseList (value : Option String) : Option (List String) :=
  match value with
  | none => none
  | some value =>
    let items := (split ',' value).filterMap fun v => if strip v ≠ "" then some (strip v) else none
    if items = [] then none else some items

/-- The column that a dimension's keys filter. -/
def Dimension.column : Dimension → FilterColumn
  | .person => .apiKey
  | .model => .model
  | .credential => .source

/-- Validated parameters of a range-consuming endpoint. -/
structure RangeParams where
  window : Window
  tz : Zone
  people : Option (List String) := none
  models : Option (List String) := none
  credentials : Option (List String) := none

/-- Resolve the display-key filters to raw column values. -/
def RangeParams.filters (rng : RangeParams) : Script Requests PyError Filters := do
  let apiKeys ← resolveFilter .apiKey rng.people
  let models ← resolveFilter .model rng.models
  let sources ← resolveFilter .source rng.credentials
  pure { apiKeys, models, sources }

/-- The summary endpoint. -/
def summary (host : Host) (pricing : PricingMap) (rng : RangeParams) (bucket : Option Bucket) :
    Script Requests PyError SummaryResponse := do
  let filters ← rng.filters
  querySummary host rng.window bucket rng.tz filters pricing

/-- The breakdown endpoint. -/
def breakdown (host : Host) (pricing : PricingMap) (aliases : List (String × String)) (dim : Dimension)
    (rng : RangeParams) (bucket : Option Bucket) : Script Requests PyError BreakdownResponse := do
  let filters ← rng.filters
  queryBreakdown host dim rng.window bucket rng.tz filters pricing aliases

/-- Selected keys of one dimension of an options response. -/
def OptionsResponse.keys (options : OptionsResponse) : Dimension → List String
  | .person => options.people.map Entity.key
  | .model => options.models.map Entity.key
  | .credential => options.credentials.map Entity.key

end CliproxyUsage
