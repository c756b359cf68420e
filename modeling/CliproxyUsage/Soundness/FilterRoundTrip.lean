import CliproxyUsage.Frontend.QueryKeys
import CliproxyUsage.Model.Routes
import CliproxyUsage.Proofs.Usage

/-! # Selected keys through a request

The dashboard joins the selected keys of a dimension with commas and the server splits, strips and
resolves them. The decoded filter selects exactly the rows of the selected entities when every key
survives that encoding, and otherwise it does not.
-/

namespace CliproxyUsage

open Python Machine Frontend

/-- A key that the comma encoding carries unchanged. -/
def Encodable (key : String) : Prop := key ≠ "" ∧ ',' ∉ key.toList ∧ strip key = key

instance (key : String) : Decidable (Encodable key) := inferInstanceAs (Decidable (_ ∧ _ ∧ _))

/-- The server's decoding of the parameter that a request carries for one dimension. -/
def decoded (params : Params) (dim : Dimension) (table : Requests) : Except PyError (Option (List String)) :=
  (resolveFilter dim.column (parseList (params.lookup (filterField dim)))).run table

/-- The filter selects exactly the stored values whose display key is selected. -/
def SelectsExactly (filter : Option (List String)) (dim : Dimension) (selection : List String)
    (table : Requests) : Prop :=
  ∃ values, filter = some values ∧
    ∀ value, value ∈ values ↔ value ∈ table.distinct dim.column ∧ filterKey dim.column value ∈ selection

/-- Every decoded key is encodable. -/
theorem encodable_of_mem_parseList {value : Option String} {items : List String} {key : String}
    (parsed : parseList value = some items) (member : key ∈ items) : Encodable key := by
  cases value with
  | none => contradiction
  | some text =>
    rw [parseList] at parsed
    split_ifs at parsed
    cases parsed
    obtain ⟨part, present, kept⟩ := List.mem_filterMap.mp member
    split_ifs at kept with nonblank
    cases kept
    exact ⟨nonblank, fun comma => not_mem_of_mem_split present (strip_subset part comma), strip_strip part⟩

/-- Encodable keys decode to themselves. -/
theorem parseList_intercalate {keys : List String} (some_ : keys ≠ [])
    (encodable : ∀ key ∈ keys, Encodable key) : parseList (some (",".intercalate keys)) = some keys := by
  have parts : split ',' (",".intercalate keys) = keys :=
    split_intercalate some_ fun key member => (encodable key member).2.1
  have items : keys.filterMap (fun v => if strip v ≠ "" then some (strip v) else none) = keys := by
    rw [List.filterMap_congr (g := some) fun key member => ?_, List.filterMap_some]
    obtain ⟨nonblank, _, stripped⟩ := encodable key member
    rw [stripped, if_pos nonblank]
  rw [parseList]
  simp only [parts, items, if_neg some_]

theorem run_resolveFilter_some (column : FilterColumn) (keys : List String) (table : Requests) :
    (resolveFilter column (some keys)).run table =
      .ok (some ((table.distinct column).filter fun value => filterKey column value ∈ keys)) := rfl

/-- Every key that the options list for a dimension is the display key of a stored value. -/
theorem key_of_options {host : Host} {pricing : PricingMap} {aliases : List (String × String)}
    {table : Requests} {options : OptionsResponse}
    (listed : (queryOptions host pricing aliases).run table = .ok options) {dim : Dimension} {key : String}
    (member : key ∈ options.keys dim) :
    ∃ value ∈ table.distinct dim.column, filterKey dim.column value = key := by
  obtain ⟨cells, fetched, rfl⟩ := run_queryOptions_ok_iff.mp listed
  have entity : key ∈ (entities aliases cells dim).map Entity.key := by
    cases dim <;> exact member
  obtain ⟨c, present, rfl⟩ := mem_entities_keys.mp entity
  exact key_of_cell fetched present dim

/-- A selection of listed keys decodes exactly when the encoding carries each of its keys. -/
theorem selection_round_trip {host : Host} {pricing : PricingMap} {aliases : List (String × String)}
    {table : Requests} {options : OptionsResponse}
    (listed : (queryOptions host pricing aliases).run table = .ok options)
    (s : ViewState) (w : ResolvedWindow) (dim : Dimension) (selected : s.selection dim ≠ [])
    (known : ∀ key ∈ s.selection dim, key ∈ options.keys dim) (params : Params)
    (sent : params = summaryKey s ∨ ∃ shown, params = breakdownKey s shown) :
    (∃ filter, decoded (requestParams w params) dim table = .ok filter ∧
      SelectsExactly filter dim (s.selection dim) table) ↔
    ∀ key ∈ s.selection dim, Encodable key := by
  have carried : (requestParams w params).lookup (filterField dim) =
      some (",".intercalate (s.selection dim)) := by
    rcases sent with rfl | ⟨shown, rfl⟩
    · rw [summaryKey, lookup_requestParams _ _ _ _ (by cases dim <;> rfl), if_pos selected]
    · rw [breakdownKey, lookup_requestParams _ _ _ _ (by cases dim <;> rfl), if_pos selected]
  rw [decoded, carried]
  constructor
  · rintro ⟨filter, found, values, rfl, exact_⟩ key member
    cases parsed : parseList (some (",".intercalate (s.selection dim))) with
    | none =>
      rw [parsed] at found
      cases found
    | some items =>
      rw [parsed, run_resolveFilter_some] at found
      cases found
      -- The key names a stored value, which the decoded filter selects only if it lists the key.
      obtain ⟨value, stored, rfl⟩ := key_of_options listed (known key member)
      have chosen := (exact_ value).mpr ⟨stored, member⟩
      exact encodable_of_mem_parseList parsed (of_decide_eq_true (List.mem_filter.mp chosen).2)
  · intro encodable
    refine ⟨_, by rw [parseList_intercalate selected encodable, run_resolveFilter_some], _, rfl, fun value => ?_⟩
    rw [List.mem_filter, decide_eq_true_eq]

def modelRow (timestamp model : String) : RequestRow :=
  ⟨timestamp, "sk-team-0001", model, "dev@example.com", "0", 1200, 100, 10, 0, 0, 110, 0⟩

def listedTable : Requests :=
  ⟨[modelRow "2026-03-01T10:00:00Z" "gpt-5", modelRow "2026-03-01T10:01:00Z" "gpt-4"], by decide⟩

def listedOptions : OptionsResponse where
  people := [⟨"sk-*******-0001", "team", some 0⟩]
  models := [⟨"gpt-4", "gpt-4", some 0⟩, ⟨"gpt-5", "gpt-5", some 1⟩]
  credentials := [⟨"dev@example.com", "dev@example.com", some 0⟩]

theorem selection_round_trip_listed :
    (∃ filter, decoded (requestParams ⟨none, "2026-03-02T00:00:00.000Z", "UTC"⟩
        (summaryKey { models := ["gpt-4"] })) .model listedTable = .ok filter ∧
      SelectsExactly filter .model ["gpt-4"] listedTable) ↔
    ∀ key ∈ ["gpt-4"], Encodable key :=
  selection_round_trip
    (show (queryOptions .utc .empty [("sk-*******-0001", "team")]).run listedTable = .ok listedOptions by
      decide +kernel)
    { models := ["gpt-4"] } _ .model (by decide) (by decide) _ (.inl rfl)

/-- A model whose id contains the separator, and one whose id is blank. -/
def unlistedTable : Requests :=
  ⟨[modelRow "2026-03-01T10:00:00Z" "gpt,4", modelRow "2026-03-01T10:01:00Z" "gpt",
    modelRow "2026-03-01T10:02:00Z" " "], by decide⟩

def unlistedOptions : OptionsResponse where
  people := [⟨"sk-*******-0001", "sk-*******-0001", some 0⟩]
  models := [⟨" ", " ", some 0⟩, ⟨"gpt", "gpt", some 1⟩, ⟨"gpt,4", "gpt,4", some 2⟩]
  credentials := [⟨"dev@example.com", "dev@example.com", some 0⟩]

def modelRequest (selection : List String) : Params :=
  requestParams ⟨none, "2026-03-02T00:00:00.000Z", "UTC"⟩ (summaryKey { models := selection })

/-- Both ids are listed. Selecting the first filters by another model, and selecting the second
filters by nothing. -/
theorem selection_lost :
    (queryOptions .utc .empty []).run unlistedTable = .ok unlistedOptions ∧
    "gpt,4" ∈ unlistedOptions.keys .model ∧ " " ∈ unlistedOptions.keys .model ∧
    decoded (modelRequest ["gpt,4"]) .model unlistedTable = .ok (some ["gpt"]) ∧
    decoded (modelRequest [" "]) .model unlistedTable = .ok none ∧
    ∀ key ∈ ["gpt,4", " "], ¬∃ filter, decoded (modelRequest [key]) .model unlistedTable = .ok filter ∧
      SelectsExactly filter .model [key] unlistedTable := by
  have comma : decoded (modelRequest ["gpt,4"]) .model unlistedTable = .ok (some ["gpt"]) := by decide +kernel
  have blank : decoded (modelRequest [" "]) .model unlistedTable = .ok none := by decide +kernel
  refine ⟨by decide +kernel, by decide, by decide, comma, blank, ?_⟩
  intro key member
  rintro ⟨filter, found, values, rfl, exact_⟩
  simp only [List.mem_cons, List.not_mem_nil, or_false] at member
  rcases member with rfl | rfl
  · rw [comma] at found
    cases found
    exact absurd ((exact_ "gpt,4").mpr (by decide)) (by decide)
  · rw [blank] at found
    cases found

end CliproxyUsage
