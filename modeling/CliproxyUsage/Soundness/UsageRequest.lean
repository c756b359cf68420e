import CliproxyUsage.Model.RangeQuery
import CliproxyUsage.Proofs.IsoTexts
import CliproxyUsage.Python.QueryString
import CliproxyUsage.Soundness.FilterRoundTrip

/-! # A view through the query string

The page resolves its range, prints it and the filters into a query string, and the server validates what it
reads back. It queries exactly the range and the entities of the view when the window is in order and its
keys survive the commas.
-/

namespace CliproxyUsage

open Python JavaScript Frontend

section Statement

/-- The `datetime` parameters that the page prints are read as `fromisoformat` reads them, to the millisecond. -/
def Libraries.ReadsInstants (libraries : Libraries) : Prop :=
  ∀ time, InRange (time * 1000) → libraries.parse (isoText time) = some ⟨time * 1000, some 0⟩

/-- The values of `Bucket | Literal["auto"]`. -/
def BucketParam.text : BucketParam → String
  | .auto => "auto"
  | .fixed .hour => "hour"
  | .fixed .day => "day"
  | .fixed .week => "week"

/-- The values of `Dimension`. -/
def Dimension.text : Dimension → String
  | .person => "person"
  | .model => "model"
  | .credential => "credential"

/-- The parameters of the range, spelled by the pairs of their names. -/
structure RangeQuery.Spelled (query : RangeQuery) (parse : String → Option DateTime) (pairs : List (String × String)) :
    Prop where
  tz : pairs.lookup "tz" = some query.tz
  start : (pairs.lookup "start").map parse = query.start.map some
  end_ : (pairs.lookup "end").map parse = query.end_.map some
  people : pairs.lookup "people" = query.people
  models : pairs.lookup "models" = query.models
  credentials : pairs.lookup "credentials" = query.credentials

/-- FastAPI reads the parameters of a request by name, each as a value of its declared type: when all of them are spelled
in a form whose names differ, `_RangeParams` is called with its own, and the endpoint with what that gives and with its own. -/
structure Libraries.ReadsForms (libraries : Libraries) : Prop where
  summary : ∀ (rangeParams : RangeQuery → Except RequestError RangeParams) (form : UrlSearchParams) (query : RangeQuery)
    (bucket : BucketParam), (form.pairs.map Prod.fst).Nodup → query.Spelled libraries.parse form.pairs →
    form.pairs.lookup "bucket" = some bucket.text →
    libraries.summaryArguments rangeParams form.toString = (rangeParams query).map fun rng => (rng, bucket)
  breakdown : ∀ (rangeParams : RangeQuery → Except RequestError RangeParams) (form : UrlSearchParams) (query : RangeQuery)
    (bucket : BucketParam) (dim : Dimension), (form.pairs.map Prod.fst).Nodup →
    query.Spelled libraries.parse form.pairs → form.pairs.lookup "bucket" = some bucket.text →
    form.pairs.lookup "dim" = some dim.text →
    libraries.breakdownArguments rangeParams form.toString = (rangeParams query).map fun rng => (dim, rng, bucket)

/-- Both ends are instants of the years 1 to 9999. -/
structure Frontend.RangeWindow.InYears (window : RangeWindow) : Prop where
  start : ∀ start ∈ window.start, InRange (start * 1000)
  end_ : InRange (window.end_ * 1000)

def Frontend.Granularity.bucket : Granularity → Option Bucket
  | .auto => none
  | .fixed bucket => some bucket

/-- The parameter that the page sends of a granularity. -/
def Frontend.Granularity.param : Granularity → BucketParam
  | .auto => .auto
  | .fixed bucket => .fixed bucket

/-- No selected key means no filter. -/
def keyFilter (keys : List String) : Option (List String) := if keys = [] then none else some keys

/-- What a view asks for in a window. -/
def asked (window : RangeWindow) (tz : Zone) (s : ViewState) : RangeParams where
  window := ⟨window.start.map (· * 1000), window.end_ * 1000⟩
  tz
  people := keyFilter s.people
  models := keyFilter s.models
  credentials := keyFilter s.credentials

end Statement

section Parameters

variable {more : List (String × String)} {w : ResolvedWindow} {s : ViewState}

/-- The names of a request, in their order. -/
private theorem names_sublist : ((requestParams w (filterParams s ++ more)).map Prod.fst).Sublist
    (["start", "end", "tz", "people", "models", "credentials"] ++ more.map Prod.fst) := by
  have start : ((w.start.toList.map fun start => ("start", start)).map Prod.fst).Sublist ["start"] := by
    cases w.start <;> simp
  have filters : ((filterParams s).map Prod.fst).Sublist ["people", "models", "credentials"] := by
    by_cases people : s.selection .person = [] <;> by_cases models : s.selection .model = [] <;>
      by_cases credentials : s.selection .credential = [] <;>
      simp [filterParams, people, models, credentials, filterField]
  simp only [requestParams, List.map_append]
  exact (start.append_right _).append (filters.append_right _)

/-- The names of the endpoint are not those of the window and of the filters. -/
private def OwnNames (more : Params) : Prop :=
  (["start", "end", "tz", "people", "models", "credentials"] ++ more.map Prod.fst).Nodup

private theorem ownNames_summary (bucket : String) : OwnNames [("bucket", bucket)] :=
  (by decide : ["start", "end", "tz", "people", "models", "credentials", "bucket"].Nodup)

private theorem ownNames_breakdown (bucket dim : String) : OwnNames [("bucket", bucket), ("dim", dim)] :=
  (by decide : ["start", "end", "tz", "people", "models", "credentials", "bucket", "dim"].Nodup)

private theorem lookup_window (w : ResolvedWindow) (params : Params) :
    (requestParams w params).lookup "start" = (w.start.or (params.lookup "start")) ∧
      (requestParams w params).lookup "end" = some w.end_ ∧ (requestParams w params).lookup "tz" = some w.tz := by
  obtain ⟨start, _, _⟩ := w
  cases start <;> exact ⟨rfl, rfl, rfl⟩

private theorem lookup_filterParams {name : String} (other : ∀ dim, name ≠ filterField dim) :
    (filterParams s).lookup name = none := by
  rw [List.lookup_eq_none_iff]
  rintro ⟨field, value⟩ member
  obtain ⟨dim, _, written⟩ := List.mem_filterMap.mp member
  split_ifs at written
  cases written
  rw [bne_iff_ne]
  exact other dim

/-- What the endpoint itself is asked. -/
private theorem lookup_own {name : String} (apart : name ≠ "start" ∧ name ≠ "end" ∧ name ≠ "tz")
    (other : ∀ dim, name ≠ filterField dim) :
    (requestParams w (filterParams s ++ more)).lookup name = more.lookup name := by
  obtain ⟨first, _, _⟩ := w
  cases first <;>
    simp [requestParams, List.lookup_append, List.lookup_cons, lookup_filterParams other, beq_false_of_ne, apart]

end Parameters

section Server

variable {libraries : Libraries} {window : RangeWindow} {tz : Zone} {s : ViewState} {more : Params} {name : String}

/-- The text of a list of keys. -/
private def sent (keys : List String) : Option String := if keys ≠ [] then some (",".intercalate keys) else none

/-- The keys arrive when the commas carry each of them. -/
private theorem parseList_sent_iff {keys : List String} :
    parseList (sent keys) = keyFilter keys ↔ ∀ key ∈ keys, Encodable key := by
  by_cases none_ : keys = []
  · subst none_
    exact iff_of_true rfl (by simp)
  · rw [sent, keyFilter, if_pos none_, if_neg none_]
    exact ⟨fun parsed key member => encodable_of_mem_parseList parsed member, parseList_intercalate none_⟩

/-- The window of a request, as `toISOString` prints it. -/
private def printed (window : RangeWindow) (name : String) : ResolvedWindow :=
  ⟨window.start.map isoText, isoText window.end_, name⟩

private theorem timeClip_of_inRange {time : ℤ} (inRange : InRange (time * 1000)) : timeClip time = some time := by
  rw [InRange, minWall, maxWall, microsPerSecond] at inRange
  rw [timeClip, if_pos]
  rw [abs_le, msPerDay]
  omega

private theorem computeWindow_eq {clock : LocalClock} {now : ℤ}
    (resolved : Frontend.resolveWindow clock now s.range = some window) (inYears : window.InYears) :
    computeWindow clock s.range name now = some (printed window name) := by
  have last := timeClip_of_inRange inYears.end_
  obtain ⟨start, end_⟩ := window
  cases start with
  | none => simp [computeWindow, resolved, toISOString, last, printed]
  | some start =>
    have first := timeClip_of_inRange (inYears.start start rfl)
    simp [computeWindow, resolved, toISOString, first, last, printed]

private def utcDateTime (time : ℤ) : DateTime := ⟨time * 1000, some 0⟩

/-- What the endpoint reads of a request. -/
private def received (window : RangeWindow) (name : String) (s : ViewState) : RangeQuery where
  tz := name
  start := window.start.map utcDateTime
  end_ := some (utcDateTime window.end_)
  people := sent s.people
  models := sent s.models
  credentials := sent s.credentials

private theorem received_spelled (reads : libraries.ReadsInstants) (inYears : window.InYears) (own : OwnNames more) :
    (received window name s).Spelled libraries.parse (requestParams (printed window name) (filterParams s ++ more)) := by
  have elsewhere {field : String} (listed : field ∈ ["start", "end", "tz", "people", "models", "credentials"]) :
      more.lookup field = none := by
    rw [List.lookup_eq_none_iff]
    rintro ⟨other, text⟩ member
    rw [bne_iff_ne]
    rintro rfl
    exact (List.nodup_append.mp own).2.2 _ listed _ (List.mem_map_of_mem member) rfl
  have fields (dim : Dimension) := lookup_requestParams (printed window name) s dim more
    (elsewhere (by cases dim <;> decide))
  obtain ⟨start, end_, zone⟩ := lookup_window (printed window name) (filterParams s ++ more)
  constructor
  case tz => exact zone
  case start =>
    obtain ⟨first, _⟩ := window
    cases first with
    | none =>
      have absent : (filterParams s ++ more).lookup "start" = none := by
        rw [List.lookup_append, lookup_filterParams (by rintro (_ | _ | _) <;> decide), elsewhere (by decide), Option.or_none]
      rw [start, absent]
      rfl
    | some first =>
      rw [start]
      exact congrArg some (reads _ (inYears.start first rfl))
  case end_ =>
    rw [end_]
    exact congrArg some (reads _ inYears.end_)
  case people => exact fields .person
  case models => exact fields .model
  case credentials => exact fields .credential

/-- Instants are in their order, or the request is rejected. -/
private theorem resolveWindow_utc (inYears : window.InYears) (now : ℤ) :
    resolveWindow now (window.start.map utcDateTime) (some (utcDateTime window.end_)) =
      if window.Ordered then .ok (asked window tz s).window else .error (.http ⟨422, "start must be <= end"⟩) := by
  have instant {time : ℤ} (inRange : InRange (time * 1000)) : astimezoneUtc (time * 1000) 0 = .ok (time * 1000) := by
    rw [astimezoneUtc, sub_zero, if_pos inRange]
  have last := instant inYears.end_
  obtain ⟨start, end_⟩ := window
  cases start with
  | none =>
    rw [if_pos (by simp [RangeWindow.Ordered])]
    simp only [resolveWindow, Option.map_none, Option.mapM_none, Option.mapM_some, resolveEnd, utcDateTime, bind,
      Except.bind, pure, Except.pure, Functor.map, Except.map, last, Option.any_none, Bool.false_eq_true, if_false,
      asked]
  | some start =>
    have first := instant (inYears.start start rfl)
    have order : ((some (start * 1000)).any fun start => start > end_ * 1000) = true ↔
        ¬(RangeWindow.mk (some start) end_).Ordered := by
      simp [RangeWindow.Ordered]
    simp only [resolveWindow, Option.map_some, Option.mapM_some, resolveEnd, utcDateTime, bind, Except.bind, Functor.map,
      Except.map, first, last, order, ite_not, asked]

/-- The validated range of a request: the keys as the server splits them. -/
private theorem resolve_received (known : libraries.zoneInfo name = some tz) (inYears : window.InYears) (now : ℤ) :
    (received window name s).resolve libraries now =
      if window.Ordered then
        .ok { asked window tz s with
              people := parseList (sent s.people), models := parseList (sent s.models),
              credentials := parseList (sent s.credentials) }
      else .error (.http ⟨422, "start must be <= end"⟩) := by
  simp only [RangeQuery.resolve, received, @resolveWindow_utc window tz s inYears now, resolveTz, known]
  split <;> rfl

private theorem param_text (granularity : Granularity) : granularity.param.text = granularityParam granularity := by
  rcases granularity with _ | bucket
  · rfl
  · cases bucket <;> rfl

private theorem param_bucket (granularity : Granularity) : granularity.param.bucket = granularity.bucket := by
  cases granularity <;> rfl

private theorem lookup_bucket {zone bucket : String} (bucketed : more.lookup "bucket" = some bucket) :
    (requestParams (printed window zone) (filterParams s ++ more)).lookup "bucket" = some bucket :=
  (lookup_own (by decide) (by rintro (_ | _ | _) <;> decide)).trans bucketed

/-- A request is validated up to its window, and its keys are split at commas. -/
private theorem summaryRequest_eq (forms : libraries.ReadsForms) (reads : libraries.ReadsInstants)
    (known : libraries.zoneInfo name = some tz) (inYears : window.InYears) (now : ℤ) :
    summaryRequest libraries now (queryString (printed window name) (summaryKey s)) =
      if window.Ordered then
        .ok ({ asked window tz s with
               people := parseList (sent s.people), models := parseList (sent s.models),
               credentials := parseList (sent s.credentials) }, s.granularity.bucket)
      else .error (.http ⟨422, "start must be <= end"⟩) := by
  have own := ownNames_summary (granularityParam s.granularity)
  have arguments := forms.summary (·.resolve libraries now)
    ⟨requestParams (printed window name) (summaryKey s)⟩ (received window name s) s.granularity.param
    (names_sublist.nodup own) (received_spelled reads inYears own) (by rw [param_text]; exact lookup_bucket rfl)
  rw [summaryRequest, queryString, arguments, resolve_received known inYears now]
  by_cases ordered : window.Ordered
  · simp only [if_pos ordered, Except.map, bind, Except.bind, param_bucket]
  · simp only [if_neg ordered, Except.map, bind, Except.bind]

/-- The range arrives as it was asked for when the window is in order and the commas carry the keys. -/
private theorem summaryRequest_ok_iff (forms : libraries.ReadsForms) (reads : libraries.ReadsInstants)
    (known : libraries.zoneInfo name = some tz) (inYears : window.InYears) (now : ℤ) :
    summaryRequest libraries now (queryString (printed window name) (summaryKey s)) =
      .ok (asked window tz s, s.granularity.bucket) ↔
        window.Ordered ∧ ∀ dim, ∀ key ∈ s.selection dim, Encodable key := by
  have carried : (parseList (sent s.people) = keyFilter s.people ∧ parseList (sent s.models) = keyFilter s.models ∧
      parseList (sent s.credentials) = keyFilter s.credentials) ↔ ∀ dim, ∀ key ∈ s.selection dim, Encodable key := by
    rw [parseList_sent_iff, parseList_sent_iff, parseList_sent_iff]
    constructor
    · rintro ⟨people, models, credentials⟩ dim
      cases dim
      · exact people
      · exact models
      · exact credentials
    · intro keys
      exact ⟨keys .person, keys .model, keys .credential⟩
  rw [summaryRequest_eq forms reads known inYears now, ← carried]
  split
  · next ordered => simp [asked, ordered]
  · next disordered => simp [disordered]

/-- The breakdown endpoint reads what the summary endpoint reads, and the shown dimension. -/
private theorem breakdownRequest_eq (forms : libraries.ReadsForms) (reads : libraries.ReadsInstants)
    (known : libraries.zoneInfo name = some tz) (inYears : window.InYears) (now : ℤ) (shown : Dimension) :
    breakdownRequest libraries now (queryString (printed window name) (breakdownKey s shown)) =
      (summaryRequest libraries now (queryString (printed window name) (summaryKey s))).map fun read => (shown, read) := by
  have own := ownNames_breakdown (granularityParam s.granularity) (dimParam shown)
  have dim : (requestParams (printed window name) (breakdownKey s shown)).lookup "dim" = some shown.text := by
    refine (lookup_own (by decide) (by rintro (_ | _ | _) <;> decide)).trans ?_
    cases shown <;> rfl
  have arguments := forms.breakdown (·.resolve libraries now)
    ⟨requestParams (printed window name) (breakdownKey s shown)⟩ (received window name s) s.granularity.param shown
    (names_sublist.nodup own) (received_spelled reads inYears own) (by rw [param_text]; exact lookup_bucket rfl) dim
  rw [summaryRequest_eq forms reads known inYears now, breakdownRequest, queryString, arguments,
    resolve_received known inYears now]
  by_cases ordered : window.Ordered
  · simp only [if_pos ordered, Except.map, bind, Except.bind, param_bucket]
  · simp only [if_neg ordered, Except.map, bind, Except.bind]

private theorem map_shown_ok_iff {answer : Except RequestError (RangeParams × Option Bucket)} {shown : Dimension}
    {read : RangeParams × Option Bucket} :
    (answer.map fun read => (shown, read)) = .ok (shown, read) ↔ answer = .ok read := by
  cases answer <;> simp [Except.map]

end Server

/-- A view's requests query exactly its range, in the zone of the viewer, and its entities, when the window is in order and
the commas carry the selected keys; a window out of order is rejected. -/
theorem usage_request_round_trips (libraries : Libraries) (forms : libraries.ReadsForms) (reads : libraries.ReadsInstants)
    (clock : LocalClock) (s : ViewState) (name : String) (tz : Zone) (known : libraries.zoneInfo name = some tz)
    (now serverNow : ℤ) (window : RangeWindow) (resolved : Frontend.resolveWindow clock now s.range = some window)
    (inYears : window.InYears) :
    ∃ w, computeWindow clock s.range name now = some w ∧
      (summaryRequest libraries serverNow (queryString w (summaryKey s)) =
          .ok (asked window tz s, s.granularity.bucket) ↔
        window.Ordered ∧ ∀ dim, ∀ key ∈ s.selection dim, Encodable key) ∧
      (∀ shown, breakdownRequest libraries serverNow (queryString w (breakdownKey s shown)) =
          .ok (shown, asked window tz s, s.granularity.bucket) ↔
        window.Ordered ∧ ∀ dim, ∀ key ∈ s.selection dim, Encodable key) ∧
      (¬window.Ordered → summaryRequest libraries serverNow (queryString w (summaryKey s)) =
        .error (.http ⟨422, "start must be <= end"⟩)) := by
  refine ⟨printed window name, computeWindow_eq resolved inYears, ?_, fun shown => ?_, fun disordered => ?_⟩
  · exact summaryRequest_ok_iff forms reads known inYears serverNow
  · rw [breakdownRequest_eq forms reads known inYears, map_shown_ok_iff]
    exact summaryRequest_ok_iff forms reads known inYears serverNow
  · rw [summaryRequest_eq forms reads known inYears serverNow, if_neg disordered]

-- An extraction of this kind, in the order in which FastAPI solves an endpoint.
section Extraction

variable (pairs : List (String × String))

/-- The value of a parameter is the last one of its name. -/
def parameter (name : String) : Option String := pairs.reverse.lookup name

/-- The parameters of `_RangeParams` that are missing or not of their type. -/
def invalidRange (parse : String → Option DateTime) : List String :=
  ["tz", "start", "end"].filter fun name =>
    match parameter pairs name with
    | none => name = "tz"
    | some text => name ≠ "tz" ∧ parse text = none

def rangeQuery (parse : String → Option DateTime) : RangeQuery where
  tz := (parameter pairs "tz").getD ""
  start := (parameter pairs "start").bind parse
  end_ := (parameter pairs "end").bind parse
  people := parameter pairs "people"
  models := parameter pairs "models"
  credentials := parameter pairs "credentials"

/-- The value of a parameter of the endpoint itself; one without a default is required. -/
def choice {α : Type} (name : String) (values : List (String × α)) (unset : Option α) : Except (List String) α :=
  match (parameter pairs name).elim unset fun text => values.lookup text with
  | some value => .ok value
  | none => .error [name]

def bucketParameter : Except (List String) BucketParam :=
  choice pairs "bucket" (([BucketParam.auto, .fixed .hour, .fixed .day, .fixed .week]).map fun bucket => (bucket.text, bucket))
    (some .auto)

def dimParameter : Except (List String) Dimension :=
  choice pairs "dim" (([Dimension.person, .model, .credential]).map fun dim => (dim.text, dim)) none

/-- `_RangeParams` is called on valid parameters, before those of the endpoint itself are validated. -/
def endpointArguments {α : Type} (parse : String → Option DateTime)
    (rangeParams : RangeQuery → Except RequestError RangeParams) (own : Except (List String) α) :
    Except RequestError (RangeParams × α) :=
  if invalidRange pairs parse = [] then do
    let rng ← rangeParams (rangeQuery pairs parse)
    match own with
    | .ok value => .ok (rng, value)
    | .error names => .error (.validation names)
  else
    match own with
    | .ok _ => .error (.validation (invalidRange pairs parse))
    | .error names => .error (.validation (invalidRange pairs parse ++ names))

variable {pairs}

/-- Among distinct names the last value is the first one. -/
private theorem parameter_eq_lookup (distinct : (pairs.map Prod.fst).Nodup) (name : String) :
    parameter pairs name = pairs.lookup name := by
  rw [parameter]
  induction pairs with
  | nil => rfl
  | cons pair rest ih =>
    obtain ⟨own, value⟩ := pair
    rw [List.map_cons, List.nodup_cons] at distinct
    rw [List.reverse_cons, List.lookup_append, ih distinct.2]
    by_cases same : name = own
    · subst same
      have unlisted : rest.lookup name = none := by
        rw [List.lookup_eq_none_iff]
        rintro ⟨other, value'⟩ member
        rw [bne_iff_ne]
        rintro rfl
        exact distinct.1 (List.mem_map.mpr ⟨_, member, rfl⟩)
      simp [unlisted]
    · have apart : (name == own) = false := beq_false_of_ne same
      simp [List.lookup_cons, apart]

/-- Each parameter that is spelled is valid, and has its value. -/
private theorem endpointArguments_spelled {α : Type} (distinct : (pairs.map Prod.fst).Nodup)
    {parse : String → Option DateTime} {query : RangeQuery} (spelled : query.Spelled parse pairs)
    (rangeParams : RangeQuery → Except RequestError RangeParams) (value : α) :
    endpointArguments pairs parse rangeParams (.ok value) = (rangeParams query).map fun rng => (rng, value) := by
  have given := parameter_eq_lookup distinct
  have read {text : Option String} {dt : Option DateTime} (parsed : text.map parse = dt.map some) :
      text.bind parse = dt := by
    cases text <;> cases dt <;> simp_all
  have whole : rangeQuery pairs parse = query := by
    rw [rangeQuery, given, given, given, given, given, given, spelled.tz, read spelled.start, read spelled.end_,
      spelled.people, spelled.models, spelled.credentials]
    rfl
  have typed {text : String} {dt : Option DateTime} (parsed : (some text).map parse = dt.map some) : parse text ≠ none := by
    cases dt <;> simp_all
  have valid : invalidRange pairs parse = [] := by
    rw [invalidRange, List.filter_eq_nil_iff]
    simp only [List.mem_cons, List.not_mem_nil, or_false, given]
    rintro name (rfl | rfl | rfl)
    · simp [spelled.tz]
    · cases start : pairs.lookup "start" with
      | none => simp
      | some text => simp [typed (start ▸ spelled.start)]
    · cases end_ : pairs.lookup "end" with
      | none => simp
      | some text => simp [typed (end_ ▸ spelled.end_)]
  rw [endpointArguments, if_pos valid, whole]
  rfl

private theorem bucketParameter_spelled (distinct : (pairs.map Prod.fst).Nodup) {bucket : BucketParam}
    (spelled : pairs.lookup "bucket" = some bucket.text) : bucketParameter pairs = .ok bucket := by
  rw [bucketParameter, choice, parameter_eq_lookup distinct, spelled]
  rcases bucket with _ | bucket
  · rfl
  · cases bucket <;> rfl

private theorem dimParameter_spelled (distinct : (pairs.map Prod.fst).Nodup) {dim : Dimension}
    (spelled : pairs.lookup "dim" = some dim.text) : dimParameter pairs = .ok dim := by
  rw [dimParameter, choice, parameter_eq_lookup distinct, spelled]
  cases dim <;> rfl

end Extraction

/-- A server that reads its parameters with `fromisoformat` and knows one zone. -/
def utcLibraries : Libraries where
  parse := fromIsoFormat
  zoneInfo key := if key = "Etc/UTC" then some .utc else none
  summaryArguments rangeParams queryString :=
    endpointArguments (parseQsl queryString) fromIsoFormat rangeParams (bucketParameter (parseQsl queryString))
  breakdownArguments rangeParams queryString :=
    let own := do
      let dim ← dimParameter (parseQsl queryString)
      let bucket ← bucketParameter (parseQsl queryString)
      pure (dim, bucket)
    (endpointArguments (parseQsl queryString) fromIsoFormat rangeParams own).map fun (rng, dim, bucket) => (dim, rng, bucket)

theorem utcLibraries_forms : utcLibraries.ReadsForms := by
  constructor
  case summary =>
    intro rangeParams form query bucket distinct spelled bucketed
    simp only [utcLibraries, parseQsl_toString, bucketParameter_spelled distinct bucketed]
    exact endpointArguments_spelled distinct spelled rangeParams bucket
  case breakdown =>
    intro rangeParams form query bucket dim distinct spelled bucketed shown
    simp only [utcLibraries, parseQsl_toString, bucketParameter_spelled distinct bucketed,
      dimParameter_spelled distinct shown, bind, Except.bind, pure, Except.pure]
    have read := endpointArguments_spelled distinct spelled rangeParams (dim, bucket)
    rw [utcLibraries] at read
    rw [read]
    cases rangeParams query <;> rfl

theorem utcLibraries_reads : utcLibraries.ReadsInstants := by
  intro time inRange
  simp only [utcLibraries]
  exact fromIsoFormat_isoText inRange

/-- A month of two models, whose ids hold separators of query strings. -/
def monthView : ViewState :=
  { range := .custom "2026-08-04T17:00" "2026-09-03T17:00", models := ["gpt-5 & co", "é=+%41"],
    granularity := .fixed .week }

theorem usage_request_round_trips_month :
    ∃ w, computeWindow ⟨id, id⟩ monthView.range "Etc/UTC" 0 = some w ∧
      summaryRequest utcLibraries 0 (queryString w (summaryKey monthView)) =
        .ok (asked ⟨some 1785862800000, 1788454800000⟩ .utc monthView, some .week) := by
  obtain ⟨w, computed, carried, _⟩ := usage_request_round_trips utcLibraries utcLibraries_forms utcLibraries_reads ⟨id, id⟩
    monthView "Etc/UTC" .utc rfl 0 0 ⟨some 1785862800000, 1788454800000⟩ (by decide +kernel)
    ⟨by decide, by decide⟩
  refine ⟨w, computed, carried.mpr ⟨by decide, ?_⟩⟩
  rintro (_ | _ | _) <;> decide

end CliproxyUsage
