import CliproxyUsage.Frontend.QueryKeys
import CliproxyUsage.Frontend.Range
import CliproxyUsage.JavaScript.UrlSearchParams
import CliproxyUsage.ToMathlib.ListFirsts

/-! # View state in the query string and in storage

The URL holds the whole view state; the storage holds everything but the open drawer. Invalid or missing
fields fall back to their defaults one by one.
-/

namespace CliproxyUsage.Frontend

open JavaScript

def viewStorageKey : String := "usage.view.v1"

def defaultViewState : ViewState := {}

def dimensions : List Dimension := [.person, .model, .credential]

def granularities : List Granularity := [.auto, .fixed .hour, .fixed .day, .fixed .week]

def metricParam : Metric → String
  | .cost => "cost"
  | .tokens => "tokens"

def tabParam : SecondaryTab → String
  | .models => "models"
  | .credentials => "credentials"

def oneOf {T : Type} (text : T → String) (allowed : List T) (v : Option String) (fallback : T) : T :=
  match v with
  | some v => (allowed.find? fun t => text t = v).getD fallback
  | none => fallback

section Parsing

variable (clock : LocalClock)

def parseRange (p : UrlSearchParams) : RangeSel :=
  match p.get "range" with
  | none => defaultViewState.range
  | some id =>
    if id = "custom" then
      let start := (p.get "from").getD ""
      let end_ := (p.get "to").getD ""
      if isValidCustomRange clock start end_ then .custom start end_ else defaultViewState.range
    else
      match presetOf id with
      | some id => .preset id
      | none => defaultViewState.range

/-- The dimension before the first colon, and the key after it. -/
def parseDrawer : Option String → Option DrawerTarget
  | none => none
  | some v =>
    match v.toList.findIdx? fun c => c = ':' with
    | none => none
    | some sep =>
      let dim := String.ofList (v.toList.take sep)
      let key := String.ofList (v.toList.drop (sep + 1))
      if 0 < sep ∧ key ≠ "" then
        (dimensions.find? fun d => dimParam d = dim).map fun dim => { dim, key }
      else none

/-- The nonempty values of a name, each once. -/
def parseKeys (p : UrlSearchParams) (name : String) : List String :=
  List.firsts id ((p.getAll name).filter fun v => v ≠ "")

def readViewState (p : UrlSearchParams) : ViewState where
  range := parseRange clock p
  people := parseKeys p "people"
  models := parseKeys p "models"
  credentials := parseKeys p "credentials"
  granularity := oneOf granularityParam granularities (p.get "gran") defaultViewState.granularity
  metric := oneOf metricParam [.cost, .tokens] (p.get "metric") defaultViewState.metric
  tab := oneOf tabParam [.models, .credentials] (p.get "tab") defaultViewState.tab
  drawer := parseDrawer (p.get "detail")

def parseViewState (search : String) : ViewState := readViewState clock (UrlSearchParams.ofString search)

end Parsing

def writeRange (p : UrlSearchParams) : RangeSel → UrlSearchParams
  | .preset id => p.set "range" (presetName id)
  | .custom start end_ => ((p.set "range" "custom").set "from" start).set "to" end_

/-- One pair for each selected key of a dimension. -/
def writeKeys (s : ViewState) (p : UrlSearchParams) (dim : Dimension) : UrlSearchParams :=
  (s.selection dim).foldl (fun p v => p.append (filterField dim) v) p

/-- `range` is always written, other defaults are left out. -/
def writeViewState (s : ViewState) : UrlSearchParams :=
  let p := writeRange .empty s.range
  let p := if s.metric ≠ defaultViewState.metric then p.set "metric" (metricParam s.metric) else p
  let p := if s.granularity ≠ defaultViewState.granularity then p.set "gran" (granularityParam s.granularity) else p
  let p := dimensions.foldl (writeKeys s) p
  let p := if s.tab ≠ defaultViewState.tab then p.set "tab" (tabParam s.tab) else p
  match s.drawer with
  | some target => p.set "detail" (dimParam target.dim ++ ":" ++ target.key)
  | none => p

def serializeViewState (s : ViewState) : String := (writeViewState s).toString

/-- The storage calls of the page; each of them may throw. -/
structure Storage (σ : Type) where
  getItem : σ → String → Except String (Option String)
  setItem : σ → String → String → Except String σ

section Storing

variable {σ : Type}

/-- `storage?.getItem(key) ?? null`, where a call that throws counts as empty. -/
def readItem (storage : Option (Storage σ)) (items : σ) (key : String) : Option String :=
  match storage with
  | none => none
  | some storage =>
    match storage.getItem items key with
    | .ok stored => stored
    | .error _ => none

/-- A nonempty query string wins; otherwise the stored state, else defaults. -/
def loadViewState (clock : LocalClock) (search : String) (storage : Option (Storage σ)) (items : σ) : ViewState :=
  let query := if search.toList.head? = some '?' then String.ofList search.toList.tail else search
  if query ≠ "" then parseViewState clock query
  else
    match readItem storage items viewStorageKey with
    | some stored => if stored ≠ "" then parseViewState clock stored else defaultViewState
    | none => defaultViewState

/-- The storage after the save; a call that throws leaves it as it is. -/
def saveViewState (s : ViewState) (storage : Option (Storage σ)) (items : σ) : σ :=
  match storage with
  | none => items
  | some storage =>
    match storage.setItem items viewStorageKey (serializeViewState { s with drawer := none }) with
    | .ok saved => saved
    | .error _ => items

end Storing

end CliproxyUsage.Frontend
