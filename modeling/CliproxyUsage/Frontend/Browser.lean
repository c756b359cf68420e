import CliproxyUsage.Frontend.ViewQuery
import CliproxyUsage.Model.Routes

/-! # The dashboard in its tabs

`useUsageViewState` and the controls that call its `update`, in browser tabs that share one storage. A tab
renders the location that it has by then, and runs the effect of a render before the next one. A control
acts on what its tab last rendered, whatever became of the location since. `setParams` is the location that
the router replaces the current one by.
-/

namespace CliproxyUsage.Frontend

open JavaScript

/-- The state with the selected keys of one dimension replaced. -/
def ViewState.select (s : ViewState) (dim : Dimension) (keys : List String) : ViewState :=
  match dim with
  | .person => { s with people := keys }
  | .model => { s with models := keys }
  | .credential => { s with credentials := keys }

/-- The controls of the page that call `update`. `detail` opens the drawer, and `filter` is a button in it. -/
inductive Control where
  | preset (id : PresetId)
  | custom (start end_ : String)
  | toggle (dim : Dimension) (key : String)
  | clear (dim : Dimension)
  | granularity (value : Granularity)
  | metric (value : Metric)
  | tab (value : SecondaryTab)
  | detail (dim : Dimension) (key : String)
  | close
  | filter
deriving DecidableEq, Repr

/-- The state that a control asks for, when it is on the page and enabled. -/
def Control.patch (clock : LocalClock) (s : ViewState) : Control → Option ViewState
  | .preset id => some { s with range := .preset id }
  | .custom start end_ => if isValidCustomRange clock start end_ then some { s with range := .custom start end_ } else none
  | .toggle dim key =>
    let value := s.selection dim
    some (s.select dim (if key ∈ value then value.filter fun k => k ≠ key else value ++ [key]))
  | .clear dim => if s.selection dim = [] then none else some (s.select dim [])
  | .granularity value => some { s with granularity := value }
  | .metric value => some { s with metric := value }
  | .tab value => some { s with tab := value }
  | .detail dim key => some { s with drawer := some { dim, key } }
  | .close => s.drawer.map fun _ => { s with drawer := none }
  | .filter => s.drawer.map (scopeToEntity s)

/-- What a render reads: the query of its location, and the state. -/
structure View where
  location : String
  search : String
  state : ViewState
deriving DecidableEq

structure Tab where
  location : String
  shown : Option View := none
  /-- The effect of the last render has not run. -/
  pending : Bool := false
deriving DecidableEq

/-- `params.toString()`, of the parameters that the router reads of a location. -/
def searchOf (location : String) : String := (UrlSearchParams.ofString location).toString

namespace Tab

variable {σ : Type} (setParams : String → String) (clock : LocalClock) (storage : Option (Storage σ)) (items : σ)

/-- The state is loaded again only for another query, and the effect runs again only for another location. -/
def render (tab : Tab) : Option Tab :=
  if tab.pending then none
  else
    let search := searchOf tab.location
    let state :=
      match tab.shown with
      | some view => if view.search = search then view.state else loadViewState clock search storage items
      | none => loadViewState clock search storage items
    some { tab with
      shown := some { location := tab.location, search, state }
      pending := tab.shown.map View.location ≠ some tab.location }

/-- The effect of the last render: the state is saved, and an empty query is filled with it. -/
def effect (tab : Tab) : Option (Tab × σ) :=
  match tab.shown with
  | none => none
  | some view =>
    if tab.pending then
      some ({ tab with
        location := if view.search = "" then setParams (serializeViewState view.state) else tab.location
        pending := false }, saveViewState view.state storage items)
    else none

def click (tab : Tab) (control : Control) : Option Tab :=
  tab.shown.bind fun view =>
    (control.patch clock view.state).map fun next => { tab with location := setParams (serializeViewState next) }

end Tab

/-- The tabs of a browser, and what its storage holds. -/
structure Browser (σ : Type) where
  tabs : ℕ → Option Tab
  items : σ

inductive BrowserEvent (σ : Type) where
  /-- The page is mounted, in a new tab or in place of what a tab had. -/
  | visit (id : ℕ) (location : String)
  /-- A link or the history changes the location of a page that stays mounted. -/
  | navigate (id : ℕ) (location : String)
  | render (id : ℕ)
  | effect (id : ℕ)
  | click (id : ℕ) (control : Control)
  /-- Somebody else changes the storage. -/
  | others (items : σ)

namespace Browser

variable {σ : Type}

def start (items : σ) : Browser σ := ⟨fun _ => none, items⟩

def put (browser : Browser σ) (id : ℕ) (tab : Tab) : Browser σ :=
  { browser with tabs := Function.update browser.tabs id (some tab) }

@[simp] theorem put_tabs (browser : Browser σ) (id : ℕ) (tab : Tab) :
    (browser.put id tab).tabs = Function.update browser.tabs id (some tab) := rfl

@[simp] theorem put_items (browser : Browser σ) (id : ℕ) (tab : Tab) : (browser.put id tab).items = browser.items := rfl

def step (setParams : String → String) (clock : LocalClock) (storage : Option (Storage σ)) (browser : Browser σ) :
    BrowserEvent σ → Option (Browser σ)
  | .visit id location => some (browser.put id { location })
  | .navigate id location => (browser.tabs id).map fun tab => browser.put id { tab with location }
  | .render id => (browser.tabs id).bind fun tab => (tab.render clock storage browser.items).map (browser.put id)
  | .effect id =>
    (browser.tabs id).bind fun tab => (tab.effect setParams storage browser.items).map fun (tab, items) =>
      { browser.put id tab with items }
  | .click id control => (browser.tabs id).bind fun tab => (tab.click setParams clock control).map (browser.put id)
  | .others items => some { browser with items }

end Browser

end CliproxyUsage.Frontend
