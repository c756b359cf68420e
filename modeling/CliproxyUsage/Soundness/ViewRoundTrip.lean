import CliproxyUsage.Frontend.ViewQuery

/-! # The view state through the URL and the storage

A query string is read as a valid state: a valid range, nonempty keys without repetition, and a drawer with
a key. Every valid state is read back from what is written of it, whatever separators its keys hold.
-/

namespace CliproxyUsage.Frontend

open JavaScript

/-- What a view state that is read from a query string satisfies. -/
structure ViewState.Valid (clock : LocalClock) (s : ViewState) : Prop where
  range : ∀ start end_, s.range = .custom start end_ → isValidCustomRange clock start end_ = true
  selection : ∀ dim, (s.selection dim).Nodup ∧ "" ∉ s.selection dim
  drawer : ∀ target, s.drawer = some target → target.key ≠ ""

variable {clock : LocalClock}

theorem ViewState.Valid.closed {s : ViewState} (valid : s.Valid clock) :
    ViewState.Valid clock { s with drawer := none } where
  range := valid.range
  selection dim := by
    have same : ({ s with drawer := none } : ViewState).selection dim = s.selection dim := by cases dim <;> rfl
    rw [same]
    exact valid.selection dim
  drawer _ := nofun

private theorem valid_parseRange {p : UrlSearchParams} {start end_ : String}
    (read : parseRange clock p = .custom start end_) : isValidCustomRange clock start end_ = true := by
  rw [parseRange] at read
  split at read
  · cases read
  · split at read
    · dsimp only at read
      split at read
      · next valid =>
        cases read
        exact valid
      · cases read
    · split at read <;> cases read

private theorem valid_parseKeys {p : UrlSearchParams} {name : String} :
    (parseKeys p name).Nodup ∧ "" ∉ parseKeys p name := by
  have unique : ((parseKeys p name).map id).Nodup := List.nodup_keys_firsts
  have members : "" ∈ (parseKeys p name).map id ↔ "" ∈ ((p.getAll name).filter fun v => v ≠ "").map id :=
    List.mem_keys_firsts
  rw [List.map_id] at unique
  rw [List.map_id, List.map_id] at members
  refine ⟨unique, ?_⟩
  intro blank
  have nonblank := (List.mem_filter.mp (members.mp blank)).2
  simp at nonblank

private theorem valid_parseDrawer {v : Option String} {target : DrawerTarget} (read : parseDrawer v = some target) :
    target.key ≠ "" := by
  cases v with
  | none => cases read
  | some v =>
    rw [parseDrawer] at read
    split at read
    · cases read
    · dsimp only at read
      split at read
      · next nonblank =>
        obtain ⟨dim, _, rfl⟩ := Option.map_eq_some_iff.mp read
        exact nonblank.2
      · cases read

/-- Every query string is read as a valid state. -/
theorem valid_readViewState (p : UrlSearchParams) : (readViewState clock p).Valid clock where
  range _ _ := valid_parseRange
  selection dim := by cases dim <;> exact valid_parseKeys
  drawer _ := valid_parseDrawer

section Written

variable {s : ViewState}

private theorem getAll_foldl_append {p : UrlSearchParams} {name other : String} {values : List String} :
    (values.foldl (fun p v => p.append name v) p).getAll other =
      p.getAll other ++ if other = name then values else [] := by
  induction values generalizing p with
  | nil => simp
  | cons v rest ih =>
    rw [List.foldl_cons, ih, UrlSearchParams.getAll_append]
    split <;> simp

private theorem getAll_writeKeys {p : UrlSearchParams} {dim : Dimension} {name : String} :
    (writeKeys s p dim).getAll name = p.getAll name ++ if name = filterField dim then s.selection dim else [] :=
  getAll_foldl_append

private theorem get_writeKeys {p : UrlSearchParams} {dim : Dimension} {name : String} :
    (writeKeys s p dim).get name =
      (p.get name).or (if name = filterField dim then (s.selection dim).head? else none) := by
  rw [UrlSearchParams.get_eq_head?, getAll_writeKeys, List.head?_append, UrlSearchParams.get_eq_head?]
  split <;> rfl

private theorem get_ite {c : Prop} [Decidable c] {p q : UrlSearchParams} {name : String} :
    (if c then p else q).get name = if c then p.get name else q.get name := apply_ite (fun p => p.get name) c p q

private theorem getAll_ite {c : Prop} [Decidable c] {p q : UrlSearchParams} {name : String} :
    (if c then p else q).getAll name = if c then p.getAll name else q.getAll name :=
  apply_ite (fun p => p.getAll name) c p q

private theorem getAll_writeRange {range : RangeSel} {name : String} (range_ : name ≠ "range")
    (from_ : name ≠ "from") (to_ : name ≠ "to") : (writeRange .empty range).getAll name = [] := by
  cases range <;> simp [writeRange, range_, from_, to_]

private theorem get_writeRange {range : RangeSel} {name : String} (range_ : name ≠ "range")
    (from_ : name ≠ "from") (to_ : name ≠ "to") : (writeRange .empty range).get name = none := by
  rw [UrlSearchParams.get_eq_head?, getAll_writeRange range_ from_ to_, List.head?_nil]

/-- The names of the range are written by nothing else. -/
private theorem get_range {name : String} (own : name ∈ ["range", "from", "to"]) :
    (writeViewState s).get name = (writeRange .empty s.range).get name := by
  obtain ⟨range, people, models, credentials, granularity, metric, tab, drawer⟩ := s
  simp only [List.mem_cons, List.not_mem_nil, or_false] at own
  rcases own with rfl | rfl | rfl <;> cases drawer <;>
    simp [writeViewState, dimensions, get_ite, get_writeKeys, filterField]

private theorem getAll_keys {dim : Dimension} : (writeViewState s).getAll (filterField dim) = s.selection dim := by
  obtain ⟨range, people, models, credentials, granularity, metric, tab, drawer⟩ := s
  cases dim <;> cases drawer <;>
    simp [writeViewState, dimensions, getAll_ite, getAll_writeKeys, getAll_writeRange, filterField]

private theorem get_metric : (writeViewState s).get "metric" =
    if s.metric ≠ defaultViewState.metric then some (metricParam s.metric) else none := by
  obtain ⟨range, people, models, credentials, granularity, metric, tab, drawer⟩ := s
  cases drawer <;> simp [writeViewState, dimensions, get_ite, get_writeKeys, get_writeRange, filterField]

private theorem get_gran : (writeViewState s).get "gran" =
    if s.granularity ≠ defaultViewState.granularity then some (granularityParam s.granularity) else none := by
  obtain ⟨range, people, models, credentials, granularity, metric, tab, drawer⟩ := s
  cases drawer <;> simp [writeViewState, dimensions, get_ite, get_writeKeys, get_writeRange, filterField]

private theorem get_tab : (writeViewState s).get "tab" =
    if s.tab ≠ defaultViewState.tab then some (tabParam s.tab) else none := by
  obtain ⟨range, people, models, credentials, granularity, metric, tab, drawer⟩ := s
  cases drawer <;> simp [writeViewState, dimensions, get_ite, get_writeKeys, get_writeRange, filterField]

private theorem get_detail : (writeViewState s).get "detail" =
    s.drawer.map fun target => dimParam target.dim ++ ":" ++ target.key := by
  obtain ⟨range, people, models, credentials, granularity, metric, tab, drawer⟩ := s
  cases drawer <;> simp [writeViewState, dimensions, get_ite, get_writeKeys, get_writeRange, filterField]

end Written

/-- The names of an enumeration tell its values apart, and the default may be left out. -/
private theorem oneOf_written {T : Type} [DecidableEq T] {text : T → String} {allowed : List T} {v fallback : T}
    (found : (allowed.find? fun t => text t = text v) = some v) :
    oneOf text allowed (if v ≠ fallback then some (text v) else none) fallback = v := by
  split
  · rw [oneOf, found, Option.getD_some]
  · next default_ => exact (not_not.mp default_).symm

private theorem parseRange_written {s : ViewState} (valid : s.Valid clock) :
    parseRange clock (writeViewState s) = s.range := by
  rw [parseRange, get_range (by simp), get_range (by simp), get_range (by simp)]
  cases range : s.range with
  | preset id =>
    have other : presetName id ≠ "custom" := by cases id <;> decide
    simp [writeRange, other]
  | custom start end_ => simp [writeRange, valid.range start end_ range]

private theorem parseKeys_written {s : ViewState} (valid : s.Valid clock) (dim : Dimension) :
    parseKeys (writeViewState s) (filterField dim) = s.selection dim := by
  obtain ⟨unique, nonblank⟩ := valid.selection dim
  have kept : (s.selection dim).filter (fun v => v ≠ "") = s.selection dim := by
    rw [List.filter_eq_self]
    intro v member
    exact decide_eq_true fun blank => nonblank (blank ▸ member)
  rw [parseKeys, getAll_keys, kept, List.firsts_of_nodup]
  rwa [List.map_id]

/-- The key of a drawer starts after the first colon, and may hold others. -/
private theorem parseDrawer_written {drawer : Option DrawerTarget}
    (valid : ∀ target, drawer = some target → target.key ≠ "") :
    parseDrawer (drawer.map fun target => dimParam target.dim ++ ":" ++ target.key) = drawer := by
  cases drawer with
  | none => rfl
  | some target =>
    obtain ⟨dim, key⟩ := target
    have some_ : key ≠ "" := valid _ rfl
    have text : (dimParam dim ++ ":" ++ key).toList = (dimParam dim).toList ++ ':' :: key.toList := by simp
    have sep : ((dimParam dim).toList ++ ':' :: key.toList).findIdx? (fun c => c = ':') =
        some (dimParam dim).toList.length := by cases dim <;> rfl
    have name : (dimensions.find? fun d => dimParam d = dimParam dim) = some dim := by cases dim <;> decide
    have first : 0 < (dimParam dim).toList.length := by cases dim <;> decide
    rw [Option.map_some, parseDrawer, text, sep]
    simp only [List.take_left', List.drop_append, String.ofList_toList, first, true_and]
    simp [name, some_]

/-- A valid state is read back from the pairs that are written of it. -/
theorem readViewState_writeViewState {s : ViewState} (valid : s.Valid clock) :
    readViewState clock (writeViewState s) = s := by
  have people := parseKeys_written valid .person
  have models := parseKeys_written valid .model
  have credentials := parseKeys_written valid .credential
  simp only [filterField] at people models credentials
  rw [readViewState, parseRange_written valid, people, models, credentials, get_gran, get_metric, get_tab, get_detail,
    oneOf_written, oneOf_written, oneOf_written, parseDrawer_written valid.drawer]
  · rfl
  · cases s.tab <;> decide
  · cases s.metric <;> decide
  · rcases s.granularity with _ | bucket
    · decide
    · cases bucket <;> decide

theorem parseViewState_serializeViewState {s : ViewState} (valid : s.Valid clock) :
    parseViewState clock (serializeViewState s) = s := by
  rw [parseViewState, serializeViewState, UrlSearchParams.ofString_toString, readViewState_writeViewState valid]

/-- The states that are read from query strings are the valid ones. -/
theorem exists_parseViewState_iff {s : ViewState} : (∃ query, parseViewState clock query = s) ↔ s.Valid clock := by
  constructor
  · rintro ⟨query, rfl⟩
    exact valid_readViewState _
  · intro valid
    exact ⟨serializeViewState s, parseViewState_serializeViewState valid⟩

/-- The range is always written. -/
theorem serializeViewState_ne_empty (s : ViewState) : serializeViewState s ≠ "" := by
  intro blank
  have pairs : writeViewState s = UrlSearchParams.empty := by
    rw [← UrlSearchParams.ofString_toString (writeViewState s)]
    exact (congrArg UrlSearchParams.ofString blank).trans (by decide)
  have written : (writeViewState s).get "range" = (writeRange .empty s.range).get "range" := get_range (by simp)
  rw [pairs, UrlSearchParams.get_empty] at written
  cases range : s.range <;> simp [range, writeRange] at written

/-- No call throws, and an item reads back as it was stored. -/
def Storage.Works {σ : Type} (storage : Storage σ) : Prop :=
  ∀ items key value, ∃ stored,
    storage.setItem items key value = .ok stored ∧ storage.getItem stored key = .ok (some value)

/-- The view state survives the URL, and without its drawer also the storage. -/
theorem view_state_round_trips (clock : LocalClock) {σ : Type} (storage : Storage σ) (works : storage.Works) :
    (∀ query, parseViewState clock (serializeViewState (parseViewState clock query)) = parseViewState clock query) ∧
    ∀ s, (∃ query, parseViewState clock query = s) → ∀ items,
      loadViewState clock "" (some storage) (saveViewState s (some storage) items) = { s with drawer := none } := by
  constructor
  · intro query
    exact parseViewState_serializeViewState (exists_parseViewState_iff.mp ⟨query, rfl⟩)
  · intro s image items
    have valid := exists_parseViewState_iff.mp image
    obtain ⟨stored, saved, read⟩ := works items viewStorageKey (serializeViewState { s with drawer := none })
    have item : readItem (some storage) (saveViewState s (some storage) items) viewStorageKey =
        some (serializeViewState { s with drawer := none }) := by
      simp only [readItem, saveViewState, saved, read]
    have blank : (if "".toList.head? = some '?' then String.ofList "".toList.tail else "") = "" := rfl
    rw [loadViewState]
    simp only [blank, ne_eq, not_true_eq_false, if_false, item, serializeViewState_ne_empty, not_false_eq_true,
      if_true]
    exact parseViewState_serializeViewState valid.closed

def utcClock : LocalClock := ⟨id, id⟩

/-- A storage that never throws. -/
def mapStorage : Storage (List (String × String)) where
  getItem items key := .ok (items.lookup key)
  setItem items key value := .ok ((key, value) :: items)

theorem mapStorage_works : mapStorage.Works := by
  intro items key value
  exact ⟨_, rfl, by simp [mapStorage]⟩

/-- A custom range, keys with separators in them, and a drawer whose key has a colon. -/
def sharedQuery : String :=
  "?range=custom&from=2026-08-04T17:00&to=2026-09-03T17:00" ++
    "&people=a%3Ab%2Cc&people=%26d%3D&people=&detail=model:x:y&gran=week"

def sharedView : ViewState :=
  { range := .custom "2026-08-04T17:00" "2026-09-03T17:00", people := ["a:b,c", "&d="], granularity := .fixed .week,
    drawer := some ⟨.model, "x:y"⟩ }

theorem view_state_round_trips_shared :
    parseViewState utcClock sharedQuery = sharedView ∧
      parseViewState utcClock (serializeViewState (parseViewState utcClock sharedQuery)) =
        parseViewState utcClock sharedQuery ∧
      loadViewState utcClock "" (some mapStorage) (saveViewState sharedView (some mapStorage) []) =
        { sharedView with drawer := none } := by
  have read : parseViewState utcClock sharedQuery = sharedView := by decide +kernel
  obtain ⟨url, stored⟩ := view_state_round_trips utcClock mapStorage mapStorage_works
  exact ⟨read, url sharedQuery, stored sharedView ⟨sharedQuery, read⟩ []⟩

end CliproxyUsage.Frontend
