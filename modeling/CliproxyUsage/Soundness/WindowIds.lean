import CliproxyUsage.Soundness.QuotaEnvelopes

/-! # The ids of quota windows

A card shows one bar for each window id. Where ids come from names that the vendor chooses they may repeat:
exactly the clashes below make two windows of one body share an id.
-/

namespace CliproxyUsage.Quota

open Python

namespace Codex

variable {runtime : Runtime}

/-- An entry of `additional_rate_limits` that names windows: one of its own, or those of its rate limit. -/
inductive Named where
  | flat (name : String)
  | nested (name : String) (primary secondary : Bool)
deriving DecidableEq

def isDict (value : Json) : Bool := value.dict?.isSome

def named? (entry : Json) : Option Named := do
  let members ← entry.dict?
  match Json.get members "limit_name" with
  | .str name =>
    if (members.lookup "used_percent").isSome ∨ (members.lookup "reset_at").isSome then some (.flat name)
    else do
      let rateLimit ← (Json.get members "rate_limit").dict?
      some (.nested name (isDict (Json.get rateLimit "primary_window")) (isDict (Json.get rateLimit "secondary_window")))
  | _ => none

/-- Two entries that give one id to a window of each. -/
def Named.Clash : Named → Named → Prop
  | .flat name, .flat name' => name = name'
  | .flat name, .nested name' primary secondary =>
    primary = true ∧ name = name' ++ ":primary" ∨ secondary = true ∧ name = name' ++ ":secondary"
  | .nested name primary secondary, .flat name' =>
    primary = true ∧ name' = name ++ ":primary" ∨ secondary = true ∧ name' = name ++ ":secondary"
  | .nested name primary secondary, .nested name' primary' secondary' =>
    name = name' ∧ (primary = true ∧ primary' = true ∨ secondary = true ∧ secondary' = true)

/-- No two additional limits of a body clash. -/
def LimitsApart (body : Json) : Prop :=
  match body with
  | .dict members =>
    match Json.get members "additional_rate_limits" with
    | .list entries => (entries.filterMap named?).Pairwise fun first second => ¬first.Clash second
    | _ => True
  | _ => True

/-- The ids of an entry's windows, without the heading that all of them share. -/
def Named.ids : Named → List String
  | .flat name => [name]
  | .nested name primary secondary =>
    (if primary then [name ++ ":primary"] else []) ++ if secondary then [name ++ ":secondary"] else []

section Ids

private theorem append_left_inj {head a b : String} : head ++ a = head ++ b ↔ a = b := by
  rw [← String.toList_inj, ← String.toList_inj, String.toList_append, String.toList_append, List.append_cancel_left_eq]

private theorem append_right_inj {tail a b : String} : a ++ tail = b ++ tail ↔ a = b := by
  rw [← String.toList_inj, ← String.toList_inj, String.toList_append, String.toList_append, List.append_cancel_right_eq]

private theorem primary_ne_secondary (name name' : String) : name ++ ":primary" ≠ name' ++ ":secondary" := by
  intro same
  have chars := congrArg (fun s : String => s.toList.reverse[3]?) same
  simp [String.toList_append] at chars

private theorem ids_nodup (named : Named) : named.ids.Nodup := by
  cases named with
  | flat name => exact List.nodup_singleton name
  | nested name primary secondary => cases primary <;> cases secondary <;> simp [Named.ids]

private theorem mem_nested_ids {id name : String} {primary secondary : Bool} :
    id ∈ (Named.nested name primary secondary).ids ↔
      primary = true ∧ id = name ++ ":primary" ∨ secondary = true ∧ id = name ++ ":secondary" := by
  cases primary <;> cases secondary <;> simp [Named.ids]

/-- Entries that clash are those that share an id. -/
private theorem exists_shared_iff (first second : Named) :
    (∃ id ∈ first.ids, id ∈ second.ids) ↔ first.Clash second := by
  cases first with
  | flat name =>
    cases second with
    | flat name' => simp [Named.ids, Named.Clash]
    | nested name' primary secondary =>
      simp only [Named.ids.eq_1, List.mem_singleton, mem_nested_ids, Named.Clash, exists_eq_left]
  | nested name primary secondary =>
    cases second with
    | flat name' => simp only [Named.ids.eq_1, List.mem_singleton, mem_nested_ids, Named.Clash, exists_eq_right]
    | nested name' primary' secondary' =>
      simp only [mem_nested_ids, Named.Clash]
      constructor
      · rintro ⟨id, ⟨has, rfl⟩ | ⟨has, rfl⟩, ⟨has', same⟩ | ⟨has', same⟩⟩
        · exact ⟨append_right_inj.mp same, .inl ⟨has, has'⟩⟩
        · exact absurd same (primary_ne_secondary _ _)
        · exact absurd same.symm (primary_ne_secondary _ _)
        · exact ⟨append_right_inj.mp same, .inr ⟨has, has'⟩⟩
      · rintro ⟨rfl, ⟨has, has'⟩ | ⟨has, has'⟩⟩
        · exact ⟨_, .inl ⟨has, rfl⟩, .inl ⟨has', rfl⟩⟩
        · exact ⟨_, .inr ⟨has, rfl⟩, .inr ⟨has', rfl⟩⟩

private theorem disjoint_ids_iff (first second : Named) : first.ids.Disjoint second.ids ↔ ¬first.Clash second := by
  rw [List.disjoint_left, ← exists_shared_iff]
  push Not
  rfl

/-- Converting a window keeps its id. -/
private theorem id_of_convert {raw : RawWindow} {window : QuotaWindow} (converted : raw.convert = .ok window) :
    window.id = raw.id := by
  rw [RawWindow.convert, windowFromRaw] at converted
  split at converted
  · cases converted
  · split at converted
    · cases converted
    · obtain ⟨_, _, rest⟩ := Except.bind_eq_ok.mp converted
      obtain ⟨_, _, made⟩ := Except.bind_eq_ok.mp rest
      cases made
      rfl

private theorem ids_rawWindow (windowId : String) (limitName : Option String) (rateLimit : List (String × Json))
    (key : String) : (rawWindow windowId limitName rateLimit key).map RawWindow.id =
      if isDict (Json.get rateLimit key) then [windowId] else [] := by
  rw [rawWindow]
  cases Json.get rateLimit key <;> rfl

private theorem ids_rawAdditional (entry : Json) :
    (rawAdditional entry).map RawWindow.id = (named? entry).toList.flatMap fun named => named.ids.map ("additional:" ++ ·) := by
  cases entry with
  | dict members =>
    simp only [rawAdditional, named?, Json.dict?, Option.bind_eq_bind, Option.bind_some]
    cases Json.get members "limit_name" with
    | str name =>
      dsimp only
      split
      · rfl
      · cases Json.get members "rate_limit" with
        | dict rateLimit =>
          have heading (kind : String) : s!"additional:{name}:" ++ kind = "additional:" ++ (name ++ (":" ++ kind)) := by
            simp only [toString, String.append_assoc]
          simp only [rawRateLimit, List.map_append, ids_rawWindow, Option.bind_some, Option.toList_some,
            List.flatMap_singleton, Named.ids, heading]
          cases isDict (Json.get rateLimit "primary_window") <;>
            cases isDict (Json.get rateLimit "secondary_window") <;> rfl
        | _ => rfl
    | _ => rfl
  | _ => rfl

/-- The ids of the account's own windows. -/
private theorem ids_rateLimit (value : Json) :
    (((rawRateLimit "" none value).map RawWindow.id).Sublist ["primary", "secondary"]) := by
  cases value with
  | dict rateLimit =>
    simp only [rawRateLimit, List.map_append, ids_rawWindow]
    cases isDict (Json.get rateLimit "primary_window") <;> cases isDict (Json.get rateLimit "secondary_window") <;> decide
  | _ => exact List.nil_sublist _

private theorem ids_additional (entries : List Json) :
    (entries.flatMap rawAdditional).map RawWindow.id =
      ((entries.filterMap named?).flatMap Named.ids).map ("additional:" ++ ·) := by
  induction entries with
  | nil => rfl
  | cons entry rest ih =>
    rw [List.flatMap_cons, List.map_append, ih, ids_rawAdditional]
    cases found : named? entry with
    | none => rw [List.filterMap_cons_none found]; rfl
    | some named =>
      rw [List.filterMap_cons_some found, List.flatMap_cons, List.map_append, Option.toList_some, List.flatMap_singleton]

private theorem own_ne_additional {id own : String} (member : own ∈ ["primary", "secondary"]) :
    own ≠ "additional:" ++ id := by
  intro same
  have first := congrArg (fun s : String => s.toList.head?) same
  simp only [List.mem_cons, List.not_mem_nil, or_false] at member
  rcases member with rfl | rfl <;> simp at first

/-- The ids of a body's windows are distinct when no two of its additional limits clash. -/
theorem ids_nodup_iff {authName : String} {body : Json} {quota : ProviderQuota}
    (parsed : parse runtime authName body = .ok quota) :
    (quota.windows.map QuotaWindow.id).Nodup ↔ LimitsApart body := by
  cases body with
  | dict members =>
    rw [parse_dict] at parsed
    obtain ⟨_, _, rest⟩ := Except.bind_eq_ok.mp parsed
    obtain ⟨windows, converted, made⟩ := Except.bind_eq_ok.mp rest
    cases made
    dsimp only
    have ids : windows.map QuotaWindow.id = (rawWindows members).map RawWindow.id :=
      List.map_of_mapM_ok converted fun raw _ window => id_of_convert
    have own := ids_rateLimit (Json.get members "rate_limit")
    have apart := own.nodup (by decide)
    rw [ids, rawWindows, List.map_append, List.nodup_append, LimitsApart]
    cases Json.get members "additional_rate_limits" with
    | list entries =>
      have disjoint : ∀ id ∈ (rawRateLimit "" none (Json.get members "rate_limit")).map RawWindow.id,
          ∀ id' ∈ ((entries.filterMap named?).flatMap Named.ids).map ("additional:" ++ ·), id ≠ id' := by
        intro id member id' member'
        obtain ⟨name, _, rfl⟩ := List.mem_map.mp member'
        exact own_ne_additional (own.subset member)
      dsimp only
      rw [ids_additional, and_iff_right apart, and_iff_left disjoint,
        List.nodup_map_iff fun a b => append_left_inj.mp, List.nodup_flatMap, and_iff_right fun named _ => ids_nodup named]
      exact List.Pairwise.iff disjoint_ids_iff
    | _ => simpa using apart
  | _ => cases parsed

end Ids

end Codex

namespace Claude

variable {runtime : Runtime}

/-- A body that gives the Fable window twice: among its own members, and as a limit whose time can be read. -/
def FableTwice (runtime : Runtime) (body : Json) : Prop :=
  match body with
  | .dict members =>
    isWindowShape (Json.get members fableWindowId) = true ∧
      ∃ shape ∈ fableShapes runtime members, Dated runtime shape = true
  | _ => False

section Ids

variable {members : List (String × Json)}

private theorem id_of_parseWindow {key : String} {value : List (String × Json)} {window : QuotaWindow}
    (parsed : parseWindow runtime key value = .ok window) : window.id = key := by
  rw [parseWindow] at parsed
  split at parsed
  · cases parsed
  · cases parsed
  · obtain ⟨_, _, made⟩ := Except.bind_eq_ok.mp parsed
    cases made
    rfl

private theorem windowMembers_keys : ((windowMembers members).map Prod.fst).Sublist (members.map Prod.fst) := by
  rw [windowMembers, List.map_filterMap]
  induction members with
  | nil => exact .slnil
  | cons member rest ih =>
    obtain ⟨key, value⟩ := member
    dsimp only [List.filterMap_cons, List.map_cons]
    split_ifs with shaped
    · cases value with
      | dict window => exact ih.cons_cons key
      | _ => exact ih.cons key
    · exact ih.cons key

/-- Where names are distinct, a window is a member when the value of its name has the shape of one. -/
private theorem mem_windowMembers {key : String} (distinct : (members.map Prod.fst).Nodup) (other : key ≠ "limits") :
    key ∈ (windowMembers members).map Prod.fst ↔ isWindowShape (Json.get members key) = true := by
  simp only [windowMembers, List.map_filterMap, List.mem_filterMap]
  constructor
  · rintro ⟨⟨name, value⟩, listed, shaped⟩
    dsimp only at shaped
    split_ifs at shaped with shape
    · cases value with
      | dict window =>
        cases shaped
        rw [Json.get_of_mem distinct listed]
        exact shape.2
      | _ => cases shaped
    · cases shaped
  · intro shape
    cases value : Json.get members key with
    | dict window =>
      rw [value] at shape
      refine ⟨(key, .dict window), Json.mem_of_get value nofun, ?_⟩
      simp only [other, ne_eq, not_false_eq_true, shape, and_self, if_true]
      rfl
    | _ =>
      rw [value] at shape
      cases shape

/-- A limit gives a window when it has the shape of one and its time can be read. -/
private theorem fableLimitWindow_isSome {limit : Json} {window : Option QuotaWindow}
    (parsed : fableLimitWindow runtime limit = .ok window) :
    window.isSome ↔ ∃ shape, fableShape runtime limit = some shape ∧ Dated runtime shape = true := by
  rw [fableLimitWindow] at parsed
  cases shaped : fableShape runtime limit with
  | none =>
    rw [shaped] at parsed
    cases parsed
    simp
  | some shape =>
    rw [shaped] at parsed
    dsimp only at parsed
    simp only [Option.some.injEq, exists_eq_left']
    cases dated : Dated runtime shape with
    | false =>
      obtain ⟨e, failed, caught⟩ := @parseWindow_of_not_dated runtime fableWindowId shape dated
      rw [failed] at parsed
      cases e with
      | schema message =>
        cases parsed
        simp
      | _ => cases parsed
    | true =>
      split at parsed
      · cases parsed
        simp
      · next message failed => exact absurd (uncaught_of_parseWindow dated failed) id
      · cases parsed

private theorem id_of_fableLimitWindow {limit : Json} {window : QuotaWindow}
    (parsed : fableLimitWindow runtime limit = .ok (some window)) : window.id = fableWindowId := by
  rw [fableLimitWindow] at parsed
  split at parsed
  · cases parsed
  · split at parsed
    · next shaped =>
      cases parsed
      exact id_of_parseWindow shaped
    · cases parsed
    · cases parsed

/-- The Fable window of a body is one that a limit of it gives, where one does. -/
private theorem fableWindow_cases {fable : Option QuotaWindow} (found : fableWindow runtime members = .ok fable) :
    (∀ window ∈ fable, window.id = fableWindowId) ∧
      (fable.isSome ↔ ∃ shape ∈ fableShapes runtime members, Dated runtime shape = true) := by
  rw [fableWindow] at found
  rw [fableShapes]
  cases limits : Json.get members "limits" with
  | list entries =>
    simp only [limits, Except.bind_def, Except.bind_eq_ok, Except.ok.injEq] at found
    obtain ⟨items, mapped, rfl⟩ := found
    generalize order : items.reduceOption.insertionSort (fun first second => inactive first.1 ≤ inactive second.1) = sorted
    have listed (item : Json × QuotaWindow) : item ∈ sorted ↔ some item ∈ items := by
      rw [← order, (List.perm_insertionSort _ _).mem_iff, List.reduceOption_mem_iff]
    have source {item : Json × QuotaWindow} (member : item ∈ sorted) :
        ∃ limit ∈ entries, fableLimitWindow runtime limit = .ok (some item.2) := by
      obtain ⟨limit, present, made⟩ := List.mem_of_mapM_ok mapped ((listed item).mp member)
      obtain ⟨window, parsed, same⟩ := Except.bind_eq_ok.mp made
      obtain ⟨_, rfl, rfl⟩ := Option.map_eq_some_iff.mp (Except.ok.inj same)
      exact ⟨limit, present, parsed⟩
    constructor
    · intro window first
      obtain ⟨item, head, rfl⟩ := Option.map_eq_some_iff.mp first
      obtain ⟨limit, _, parsed⟩ := source (List.mem_of_mem_head? head)
      exact id_of_fableLimitWindow parsed
    · rw [Option.isSome_map, List.isSome_head?]
      constructor
      · intro some_
        obtain ⟨item, member⟩ := List.exists_mem_of_ne_nil sorted some_
        obtain ⟨limit, present, parsed⟩ := source member
        obtain ⟨shape, shaped, dated⟩ := (fableLimitWindow_isSome parsed).mp rfl
        exact ⟨shape, List.mem_filterMap.mpr ⟨limit, present, shaped⟩, dated⟩
      · rintro ⟨shape, member, dated⟩
        obtain ⟨limit, present, shaped⟩ := List.mem_filterMap.mp member
        obtain ⟨item, placed, made⟩ := List.value_of_mapM_ok mapped present
        obtain ⟨window, parsed, same⟩ := Except.bind_eq_ok.mp made
        obtain ⟨given, rfl⟩ := Option.isSome_iff_exists.mp ((fableLimitWindow_isSome parsed).mpr ⟨shape, shaped, dated⟩)
        cases same
        exact List.ne_nil_of_mem ((listed _).mpr placed)
  | _ =>
    simp only [limits] at found
    cases found
    simp

end Ids

/-- The ids of a body's windows are distinct unless it gives the Fable window twice. -/
theorem ids_nodup_iff {authName : String} {body : Json} {quota : ProviderQuota} (distinct : body.DistinctNames)
    (parsed : parse runtime authName body = .ok quota) :
    (quota.windows.map QuotaWindow.id).Nodup ↔ ¬FableTwice runtime body := by
  cases body with
  | dict members =>
    obtain ⟨windows, mapped, rest⟩ := Except.bind_eq_ok.mp ((parse_dict authName members).symm.trans parsed)
    obtain ⟨fable, found, made⟩ := Except.bind_eq_ok.mp rest
    cases made
    have ids : windows.map QuotaWindow.id = (windowMembers members).map Prod.fst :=
      List.map_of_mapM_ok mapped fun member _ window => id_of_parseWindow
    have keys := windowMembers_keys.nodup distinct
    rw [FableTwice, ← mem_windowMembers distinct (by decide), ← (fableWindow_cases found).2]
    dsimp only
    rw [List.map_append, ids]
    cases fable with
    | none => simpa using keys
    | some window =>
      rw [Option.toList_some, List.map_singleton, (fableWindow_cases found).1 window rfl, ← List.concat_eq_append,
        List.nodup_concat]
      simp only [keys, and_true, Option.isSome_some]
  | _ => cases parsed

end Claude

/-- What keeps the ids of a provider's windows apart. -/
def Provider.IdsApart (runtime : Runtime) (body : Json) : Provider → Prop
  | .claude => ¬Claude.FableTwice runtime body
  | .codex => Codex.LimitsApart body

/-- The windows of an accepted body have distinct ids exactly when no two additional limits of a Codex body
clash, and a Claude body gives no Fable window twice. -/
theorem window_ids_distinct_iff {runtime : Runtime} {provider : Provider} {authName : String} {body : Json}
    {quota : ProviderQuota} (distinct : body.DistinctNames)
    (parsed : provider.parse runtime authName body = .ok quota) :
    (quota.windows.map QuotaWindow.id).Nodup ↔ provider.IdsApart runtime body := by
  cases provider with
  | claude => exact Claude.ids_nodup_iff distinct parsed
  | codex => exact Codex.ids_nodup_iff parsed

def flatLimit (name : String) : Json :=
  .dict [("limit_name", .str name), ("used_percent", .int 25), ("reset_at", .int 1776950000)]

def nestedLimit (name : String) : Json :=
  .dict [("limit_name", .str name), ("rate_limit", .dict
    [("primary_window", .dict [("used_percent", .int 25), ("reset_at", .int 1776950000)])])]

def limitsBody (entries : List Json) : Json := .dict [("additional_rate_limits", .list entries)]

def fableLimit (resetsAt : Json) : Json :=
  .dict [("kind", .str "weekly_scoped"), ("percent", .int 64), ("resets_at", resetsAt),
    ("scope", .dict [("model", .dict [("display_name", .str "Fable")])])]

/-- A window of its own under the Fable name, beside one limit of a Fable model. -/
def fableBody (resetsAt : Json) : Json :=
  .dict [("seven_day_fable", .dict [("utilization", .int 10), ("resets_at", .null)]), ("limits", .list [fableLimit resetsAt])]

def limitQuota : ProviderQuota where
  provider := .codex
  authName := "a"
  planType := none
  windows :=
    [⟨"additional:x", "x limit", some (.finite 25), some ⟨1776950000000000, some 0⟩⟩,
      ⟨"additional:x:primary", "x limit", some (.finite 25), some ⟨1776950000000000, some 0⟩⟩]

def fableQuota : ProviderQuota where
  provider := .claude
  authName := "a"
  planType := none
  windows := [⟨"seven_day_fable", "7-day Fable 5", some (.finite 10), none⟩]

theorem window_ids_distinct_iff_apart :
    ((limitQuota.windows.map QuotaWindow.id).Nodup ↔
        Provider.codex.IdsApart plainRuntime (limitsBody [flatLimit "x", nestedLimit "x"])) ∧
      ((fableQuota.windows.map QuotaWindow.id).Nodup ↔
        Provider.claude.IdsApart plainRuntime (fableBody (.str "soon"))) := by
  have limits : Provider.codex.parse plainRuntime "a" (limitsBody [flatLimit "x", nestedLimit "x"]) = .ok limitQuota := by
    decide +kernel
  have fable : Provider.claude.parse plainRuntime "a" (fableBody (.str "soon")) = .ok fableQuota := by decide +kernel
  have distinct : (fableBody (.str "soon")).DistinctNames := by
    rw [fableBody, Json.DistinctNames]
    decide
  exact ⟨window_ids_distinct_iff (List.nodup_singleton _) limits, window_ids_distinct_iff distinct fable⟩

/-- The ids of an accepted body. -/
def windowIds (provider : Provider) (body : Json) : Option (List String) :=
  (provider.parse plainRuntime "a" body).toOption.map fun quota => quota.windows.map QuotaWindow.id

theorem window_ids_repeat :
    windowIds .codex (limitsBody [flatLimit "x", flatLimit "x"]) = some ["additional:x", "additional:x"] ∧
      windowIds .codex (limitsBody [flatLimit "x:primary", nestedLimit "x"]) =
        some ["additional:x:primary", "additional:x:primary"] ∧
      windowIds .claude (fableBody .null) = some ["seven_day_fable", "seven_day_fable"] := by
  decide +kernel

end CliproxyUsage.Quota
