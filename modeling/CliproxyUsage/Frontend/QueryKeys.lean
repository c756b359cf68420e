import CliproxyUsage.Frontend.ViewState

/-! # Request parameters of the dashboard

The query parameters of each usage request: the window, the bucket, and one comma-joined list for
every dimension that is filtered. A record of strings is a list of its entries.
-/

namespace CliproxyUsage.Frontend

/-- The window that every request sends; no start means all time. -/
structure ResolvedWindow where
  start : Option String
  end_ : String
  tz : String
deriving DecidableEq, Repr

abbrev Params := List (String × String)

def granularityParam : Granularity → String
  | .auto => "auto"
  | .fixed .hour => "hour"
  | .fixed .day => "day"
  | .fixed .week => "week"

def dimParam : Dimension → String
  | .person => "person"
  | .model => "model"
  | .credential => "credential"

/-- Comma-joined filter params; unfiltered dimensions are omitted. -/
def filterParams (s : ViewState) : Params :=
  [Dimension.person, .model, .credential].filterMap fun dim =>
    if s.selection dim ≠ [] then some (filterField dim, ",".intercalate (s.selection dim)) else none

/-- The params of a summary request, minus the window. -/
def summaryKey (s : ViewState) : Params := filterParams s ++ [("bucket", granularityParam s.granularity)]

/-- The params of a breakdown request, minus the window. -/
def breakdownKey (s : ViewState) (dim : Dimension) : Params :=
  filterParams s ++ [("bucket", granularityParam s.granularity), ("dim", dimParam dim)]

/-- Query string params of a request; its own names differ from the window's. -/
def requestParams (w : ResolvedWindow) (params : Params) : Params :=
  (w.start.toList.map fun start => ("start", start)) ++ [("end", w.end_), ("tz", w.tz)] ++ params

/-- What a request sends for one dimension. -/
theorem lookup_requestParams (w : ResolvedWindow) (s : ViewState) (dim : Dimension) (more : Params)
    (others : more.lookup (filterField dim) = none) :
    (requestParams w (filterParams s ++ more)).lookup (filterField dim) =
      if s.selection dim ≠ [] then some (",".intercalate (s.selection dim)) else none := by
  have window : (requestParams w (filterParams s ++ more)).lookup (filterField dim) =
      (filterParams s ++ more).lookup (filterField dim) := by
    obtain ⟨start, _, _⟩ := w
    cases start <;> cases dim <;> rfl
  rw [window, List.lookup_append, others, Option.or_none]
  by_cases people : s.selection .person = [] <;> by_cases models : s.selection .model = [] <;>
    by_cases credentials : s.selection .credential = [] <;> cases dim <;>
    simp [filterParams, people, models, credentials, List.lookup_cons, filterField]

end CliproxyUsage.Frontend
