import CliproxyUsage.Model.Cells

/-! # Dashboard view state

What the dashboard remembers of the viewer's choices: the range, the selected keys of each
dimension, the granularity, and the open detail drawer.
-/

namespace CliproxyUsage.Frontend

inductive PresetId where
  | last24h
  | today
  | last7d
  | last30d
  | last90d
  | thisMonth
  | lastMonth
  | all
deriving DecidableEq, Repr

/-- A preset, or a custom pair of viewer-local `YYYY-MM-DDTHH:mm` texts. -/
inductive RangeSel where
  | preset (id : PresetId)
  | custom (start end_ : String)
deriving DecidableEq, Repr

inductive Metric where
  | cost
  | tokens
deriving DecidableEq, Repr

inductive Granularity where
  | auto
  | fixed (bucket : Bucket)
deriving DecidableEq, Repr

inductive SecondaryTab where
  | models
  | credentials
deriving DecidableEq, Repr

structure DrawerTarget where
  dim : Dimension
  key : String
deriving DecidableEq, Repr

/-- The page state; an empty list of selected keys means unfiltered. -/
structure ViewState where
  range : RangeSel := .preset .today
  people : List String := []
  models : List String := []
  credentials : List String := []
  granularity : Granularity := .auto
  metric : Metric := .cost
  tab : SecondaryTab := .models
  drawer : Option DrawerTarget := none
deriving DecidableEq, Repr

/-- The selected keys of one dimension. -/
def ViewState.selection (s : ViewState) : Dimension → List String
  | .person => s.people
  | .model => s.models
  | .credential => s.credentials

/-- The name of the list that holds each dimension's selected keys. -/
def filterField : Dimension → String
  | .person => "people"
  | .model => "models"
  | .credential => "credentials"

/-- Page state narrowed to one entity, replacing that dimension's filter. -/
def scopeToEntity (s : ViewState) (target : DrawerTarget) : ViewState :=
  match target.dim with
  | .person => { s with people := [target.key], drawer := none }
  | .model => { s with models := [target.key], drawer := none }
  | .credential => { s with credentials := [target.key], drawer := none }

@[simp] theorem selection_scopeToEntity (s : ViewState) (target : DrawerTarget) (dim : Dimension) :
    (scopeToEntity s target).selection dim = if dim = target.dim then [target.key] else s.selection dim := by
  obtain ⟨targetDim, key⟩ := target
  cases targetDim <;> cases dim <;> rfl

end CliproxyUsage.Frontend
