import CliproxyUsage.Model.QuotaProviders

/-! # What a quota lookup lets through

The parsers raise two kinds of exceptions: the schema errors that the service turns into envelopes,
and what a conversion raises, which nobody catches. For each step of a lookup, exactly which replies
keep it from raising the second kind.
-/

namespace CliproxyUsage.Quota

open Python

variable {runtime : Runtime}

section Caught

variable {α β : Type}

/-- Nothing is raised but what a lookup turns into an envelope. -/
def Caught (result : Except Raised α) : Prop := ∀ e, result = .error e → ¬e.Escapes

theorem caught_ok (a : α) : Caught (.ok a) := fun _ raised => nomatch raised

theorem caught_schema (message : String) : Caught (.error (.schema message) : Except Raised α) := by
  rintro _ ⟨⟩ escapes
  exact escapes

theorem caught_upstream (exc : QuotaUpstreamError) : Caught (.error (.upstream exc) : Except Raised α) := by
  rintro _ ⟨⟩ escapes
  exact escapes

theorem not_caught (e : PyError) : ¬Caught (.error (.uncaught e) : Except Raised α) := fun caught =>
  caught _ rfl trivial

theorem caught_uncaught {result : Except PyError α} : Caught (uncaught result) ↔ ∃ a, result = .ok a := by
  cases result with
  | ok a => exact ⟨fun _ => ⟨a, rfl⟩, fun _ => caught_ok a⟩
  | error e => exact ⟨fun caught => absurd caught (not_caught e), fun ⟨_, same⟩ => nomatch same⟩

theorem caught_bind {result : Except Raised α} {f : α → Except Raised β} :
    Caught (result.bind f) ↔ Caught result ∧ ∀ a, result = .ok a → Caught (f a) := by
  cases result with
  | ok a =>
    rw [Except.bind_ok]
    constructor
    · intro caught
      refine ⟨caught_ok a, ?_⟩
      rintro _ ⟨⟩
      exact caught
    · exact fun both => both.2 a rfl
  | error e =>
    rw [Except.bind_error]
    constructor
    · intro caught
      refine ⟨?_, fun _ same => nomatch same⟩
      rintro _ ⟨⟩
      exact caught e rfl
    · rintro ⟨caught, _⟩ _ ⟨⟩
      exact caught e rfl

/-- A pass whose items raise nothing that is caught. -/
theorem caught_mapM {f : α → Except Raised β} (escapes : ∀ a e, f a = .error e → e.Escapes) {items : List α} :
    Caught (items.mapM f) ↔ ∃ values, items.mapM f = .ok values := by
  have pass := @List.mapM_not_bad_iff _ _ _ f Raised.Escapes (fun _ => true) (fun _ never => nomatch never)
    (fun a e _ raised => escapes a e raised) items
  rw [List.takeWhile_eq_self_iff.mpr fun _ _ => rfl] at pass
  exact pass.trans ⟨List.mapM_total, fun ⟨_, mapped⟩ _ member => List.ok_of_mapM_ok mapped member⟩

end Caught

namespace Codex

/-- A window as the body gives it. -/
structure RawWindow where
  id : String
  label : String
  usedPercent : Json
  resetAt : Json

namespace RawWindow

def convert (raw : RawWindow) : Except Raised QuotaWindow :=
  windowFromRaw raw.id raw.label raw.usedPercent raw.resetAt

/-- Both fields are numbers. -/
def Numeric (raw : RawWindow) : Bool := raw.usedPercent.isNumber && raw.resetAt.isNumber

/-- Both numbers are in range. -/
def Fits (raw : RawWindow) : Bool := raw.usedPercent.FitsFloat && raw.resetAt.FitsInstant

theorem convert_of_not_numeric (raw : RawWindow) (other : raw.Numeric = false) :
    ∃ e, raw.convert = .error e ∧ ¬e.Escapes := by
  rw [convert, windowFromRaw]
  split
  · exact ⟨_, rfl, fun escapes => escapes⟩
  · next used =>
    split
    · exact ⟨_, rfl, fun escapes => escapes⟩
    · next reset => simp [Numeric, not_not.mp used, not_not.mp reset] at other

private theorem convert_of_numeric {raw : RawWindow} (numeric : raw.Numeric = true) :
    raw.convert = (uncaught raw.usedPercent.toFloat).bind fun used =>
      (uncaught raw.resetAt.fromTimestamp).bind fun resetsAt => .ok ⟨raw.id, raw.label, some used, some resetsAt⟩ := by
  rw [Numeric, Bool.and_eq_true] at numeric
  rw [convert, windowFromRaw, if_neg (not_not.mpr numeric.1), if_neg (not_not.mpr numeric.2)]
  rfl

theorem uncaught_of_convert (raw : RawWindow) (e : Raised) (numeric : raw.Numeric = true)
    (raised : raw.convert = .error e) : e.Escapes := by
  rw [convert_of_numeric numeric] at raised
  cases used : raw.usedPercent.toFloat with
  | error exc =>
    rw [used] at raised
    cases raised
    trivial
  | ok x =>
    cases reset : raw.resetAt.fromTimestamp with
    | error exc =>
      rw [used, reset] at raised
      cases raised
      trivial
    | ok at_ =>
      rw [used, reset] at raised
      cases raised

theorem convert_ok_iff {raw : RawWindow} (numeric : raw.Numeric = true) :
    (∃ window, raw.convert = .ok window) ↔ raw.Fits = true := by
  have used := @Json.toFloat_ok_iff raw.usedPercent (Bool.and_eq_true_iff.mp numeric).1
  rw [convert_of_numeric numeric, Fits, Bool.and_eq_true, ← used, ← Json.fromTimestamp_ok_iff]
  cases raw.usedPercent.toFloat <;> cases raw.resetAt.fromTimestamp <;> simp

end RawWindow

def rawWindow (windowId : String) (limitName : Option String) (rateLimit : List (String × Json)) (key : String) :
    List RawWindow :=
  match Json.get rateLimit key with
  | .dict raw =>
    [⟨windowId, windowLabel limitName (Json.get raw "limit_window_seconds"), Json.get raw "used_percent",
      Json.get raw "reset_at"⟩]
  | _ => []

def rawRateLimit (heading : String) (limitName : Option String) (value : Json) : List RawWindow :=
  match value with
  | .dict rateLimit =>
    rawWindow (heading ++ "primary") limitName rateLimit "primary_window" ++
      rawWindow (heading ++ "secondary") limitName rateLimit "secondary_window"
  | _ => []

def rawAdditional (entry : Json) : List RawWindow :=
  match entry with
  | .dict members =>
    match Json.get members "limit_name" with
    | .str limitName =>
      if (members.lookup "used_percent").isSome ∨ (members.lookup "reset_at").isSome then
        [⟨s!"additional:{limitName}", windowLabel (some limitName) (Json.get members "limit_window_seconds"),
          Json.get members "used_percent", Json.get members "reset_at"⟩]
      else rawRateLimit s!"additional:{limitName}:" (some limitName) (Json.get members "rate_limit")
    | _ => []
  | _ => []

/-- The windows of a body, in the order in which they are converted. -/
def rawWindows (members : List (String × Json)) : List RawWindow :=
  rawRateLimit "" none (Json.get members "rate_limit") ++
    match Json.get members "additional_rate_limits" with
    | .list entries => entries.flatMap rawAdditional
    | _ => []

private theorem mapM_singleton (raw : RawWindow) :
    [raw].mapM RawWindow.convert = raw.convert.bind fun window => .ok [window] := by
  simp only [List.mapM_cons, List.mapM_nil, Except.bind_def, Except.pure_def, Except.bind_ok]

private theorem appendWindowFromRateLimit_eq (windowId : String) (limitName : Option String)
    (rateLimit : List (String × Json)) (key : String) :
    appendWindowFromRateLimit windowId limitName rateLimit key =
      (rawWindow windowId limitName rateLimit key).mapM RawWindow.convert := by
  rw [appendWindowFromRateLimit, rawWindow]
  cases Json.get rateLimit key with
  | dict raw =>
    dsimp only
    rw [mapM_singleton]
    rfl
  | _ => rfl

private theorem rateLimitWindows_eq (heading : String) (limitName : Option String) (value : Json) :
    rateLimitWindows heading limitName value = (rawRateLimit heading limitName value).mapM RawWindow.convert := by
  cases value with
  | dict rateLimit =>
    simp only [rateLimitWindows, rawRateLimit, appendWindowFromRateLimit_eq, List.mapM_append]
    rfl
  | _ => rfl

private theorem additionalWindows_eq (entry : Json) :
    additionalWindows entry = (rawAdditional entry).mapM RawWindow.convert := by
  cases entry with
  | dict members =>
    simp only [additionalWindows, rawAdditional]
    cases Json.get members "limit_name" with
    | str limitName =>
      dsimp only
      split
      · rw [mapM_singleton]
        rfl
      · exact rateLimitWindows_eq _ _ _
    | _ => rfl
  | _ => rfl

/-- Parsing a body converts its windows in order. -/
theorem parse_dict (authName : String) (members : List (String × Json)) :
    parse runtime authName (.dict members) =
      (parsePlanType runtime (Json.get members "plan_type")).bind fun planType =>
        ((rawWindows members).mapM RawWindow.convert).bind fun windows =>
          .ok
            { provider := .codex
              authName
              planType
              windows
              manualResets := manualResets members } := by
  rw [parse, rawWindows, List.mapM_append]
  simp only [Except.bind_def, Except.pure_def, rateLimitWindows_eq]
  cases parsePlanType runtime (Json.get members "plan_type") with
  | error e => rfl
  | ok planType =>
    cases (rawRateLimit "" none (Json.get members "rate_limit")).mapM RawWindow.convert with
    | error e => rfl
    | ok windows =>
      cases Json.get members "additional_rate_limits" with
      | list entries =>
        dsimp only
        rw [List.mapM_flatMap, ← List.mapM_congr fun entry _ => additionalWindows_eq entry]
        cases entries.mapM additionalWindows <;> rfl
      | _ => rfl

/-- The plan can be printed, and each window whose predecessors are numeric fits when it is numeric. -/
def Readable (runtime : Runtime) (body : Json) : Prop :=
  match body with
  | .dict members =>
    (Json.get members "plan_type" ≠ .null → ∃ text, runtime.str (Json.get members "plan_type") = .ok text) ∧
      ∀ raw ∈ (rawWindows members).takeWhile RawWindow.Numeric, raw.Fits = true
  | _ => True

/-- A body that is no schema error. -/
def Complete (body : Json) : Prop :=
  match body with
  | .dict members => ∀ raw ∈ rawWindows members, raw.Numeric = true
  | _ => False

private theorem caught_parsePlanType {plan : Json} :
    Caught (parsePlanType runtime plan) ↔ (plan ≠ .null → ∃ text, runtime.str plan = .ok text) := by
  have printed : Caught ((uncaught (runtime.str plan)).bind fun text => .ok (some text)) ↔
      ∃ text, runtime.str plan = .ok text := by
    rw [caught_bind, caught_uncaught, and_iff_left]
    exact fun text _ => caught_ok _
  cases plan with
  | null => simp [parsePlanType, caught_ok]
  | _ => simpa [parsePlanType, Except.bind_def] using printed

private theorem parsePlanType_ok {plan : Json} (caught : Caught (parsePlanType runtime plan)) :
    ∃ planType, parsePlanType runtime plan = .ok planType := by
  cases plan with
  | null => exact ⟨none, rfl⟩
  | _ =>
    obtain ⟨text, printed⟩ := caught_parsePlanType.mp caught (by simp)
    exact ⟨some text, by simp [parsePlanType, printed, Except.bind_def]⟩

theorem parse_caught_iff (authName : String) (body : Json) :
    Caught (parse runtime authName body) ↔ Readable runtime body := by
  cases body with
  | dict members =>
    have windows : Caught ((rawWindows members).mapM RawWindow.convert) ↔
        ∀ raw ∈ (rawWindows members).takeWhile RawWindow.Numeric, raw.Fits = true := by
      apply (List.mapM_not_bad_iff RawWindow.convert_of_not_numeric RawWindow.uncaught_of_convert).trans
      exact forall₂_congr fun raw member => RawWindow.convert_ok_iff (List.mem_takeWhile_imp member)
    rw [parse_dict, caught_bind, caught_parsePlanType, Readable, ← windows]
    refine and_congr_right fun printed => ?_
    obtain ⟨planType, parsed⟩ := parsePlanType_ok (caught_parsePlanType.mpr printed)
    simp [parsed, caught_bind, caught_ok]
  | _ => simp [parse, Readable, caught_schema]

theorem parse_ok_iff (authName : String) {body : Json} (readable : Readable runtime body) :
    (∃ quota, parse runtime authName body = .ok quota) ↔ Complete body := by
  have caught := (parse_caught_iff authName body).mpr readable
  cases body with
  | dict members =>
    rw [parse_dict, caught_bind] at caught
    obtain ⟨planType, parsed⟩ := parsePlanType_ok caught.1
    have windows := (caught_bind.mp (caught.2 planType parsed)).1
    have passes := List.mapM_ok_iff_passes RawWindow.convert_of_not_numeric RawWindow.uncaught_of_convert windows
    rw [parse_dict, parsed, Except.bind_ok, Complete, ← passes]
    simp only [Except.bind_eq_ok]
    constructor
    · rintro ⟨_, values, converted, _⟩
      exact ⟨values, converted⟩
    · rintro ⟨values, converted⟩
      exact ⟨_, values, converted, rfl⟩
  | _ => simp [parse, Complete]

section Credits

/-- The id and the expiry of a credit that is not skipped. -/
def availableCredit (entry : Json) : Option (Json × DateTime) :=
  match entry with
  | .dict members =>
    if (Json.get members "reset_type").equalsStr "codex_rate_limits" ∧ (Json.get members "status").equalsStr "available" then
      (parseInstant (Json.get members "expires_at")).map fun expiresAt => ((members.lookup "id").getD (.str ""), expiresAt)
    else none
  | _ => none

private theorem parseCredit_eq (entry : Json) :
    parseCredit runtime entry = match availableCredit entry with
      | none => .ok none
      | some credit => (uncaught (runtime.str credit.1)).bind fun id => .ok (some ⟨id, credit.2⟩) := by
  cases entry with
  | dict members =>
    rw [parseCredit, availableCredit]
    by_cases kind : (Json.get members "reset_type").equalsStr "codex_rate_limits" = true
    · by_cases status : (Json.get members "status").equalsStr "available" = true
      · simp only [kind, status, not_true_eq_false, if_false, and_self, if_true]
        cases parseInstant (Json.get members "expires_at") <;> rfl
      · simp [kind, status]
    · simp [kind]
  | _ => rfl

private theorem uncaught_of_parseCredit (entry : Json) (e : Raised) (raised : parseCredit runtime entry = .error e) :
    e.Escapes := by
  rw [parseCredit_eq] at raised
  split at raised
  · cases raised
  · next credit _ =>
    cases printed : runtime.str credit.1 with
    | ok text =>
      rw [printed] at raised
      cases raised
    | error exc =>
      rw [printed] at raised
      cases raised
      trivial

private theorem parseCredit_ok_iff {entry : Json} :
    (∃ credit, parseCredit runtime entry = .ok credit) ↔
      ∀ credit ∈ availableCredit entry, ∃ text, runtime.str credit.1 = .ok text := by
  rw [parseCredit_eq]
  cases availableCredit entry with
  | none => simp
  | some credit =>
    dsimp only
    cases printed : runtime.str credit.1 <;> simp [printed]

/-- The credits that are found are the available ones, their ids printed. -/
theorem found_of_mapM {entries : List Json} {found : List (Option ManualResetCredit)}
    (mapped : entries.mapM (parseCredit runtime) = .ok found) :
    List.Forall₂ (fun raw credit => runtime.str raw.1 = .ok credit.id ∧ credit.expiresAt = raw.2)
      (entries.filterMap availableCredit) found.reduceOption := by
  have each := List.mapM_ok_iff.mp mapped
  clear mapped
  induction each with
  | nil => exact .nil
  | @cons entry credit rest later here _ ih =>
    rw [parseCredit_eq] at here
    cases available : availableCredit entry with
    | none =>
      rw [available] at here
      cases here
      rw [List.filterMap_cons_none available, List.reduceOption_cons_of_none]
      exact ih
    | some raw =>
      rw [available] at here
      obtain ⟨text, printed, made⟩ := Except.bind_eq_ok.mp here
      cases made
      rw [List.filterMap_cons_some available, List.reduceOption_cons_of_some]
      refine .cons ⟨?_, rfl⟩ ih
      cases shown : runtime.str raw.1 with
      | ok id =>
        rw [shown] at printed
        cases printed
        rfl
      | error e =>
        rw [shown] at printed
        cases printed

theorem expiries_of_mapM {entries : List Json} {found : List (Option ManualResetCredit)}
    (mapped : entries.mapM (parseCredit runtime) = .ok found) :
    found.reduceOption.map ManualResetCredit.expiresAt = (entries.filterMap availableCredit).map Prod.snd := by
  have each := found_of_mapM mapped
  generalize found.reduceOption = credits, entries.filterMap availableCredit = listed at each
  induction each with
  | nil => rfl
  | cons here _ ih => rw [List.map_cons, List.map_cons, here.2, ih]

/-- Two times compare when both have an offset or both have none. -/
theorem before_ok_iff (first second : ManualResetCredit) :
    (∃ less, before first second = .ok less) ↔
      first.expiresAt.offset.isSome = second.expiresAt.offset.isSome := by
  rw [before]
  cases first.expiresAt.offset <;> cases second.expiresAt.offset <;> simp

theorem sortM_before_ok_iff {credits : List ManualResetCredit} :
    (∃ sorted, credits.sortM before = .ok sorted) ↔
      ∀ a ∈ credits.map ManualResetCredit.expiresAt, ∀ b ∈ credits.map ManualResetCredit.expiresAt,
        a.offset.isSome = b.offset.isSome := by
  rw [@List.sortM_ok_iff _ _ _ before (fun credit : ManualResetCredit => credit.expiresAt.offset.isSome) before_ok_iff]
  simp

/-- Every id of an available credit can be printed, and their expiries compare. -/
def CreditsReadable (runtime : Runtime) (body : Json) : Prop :=
  match body with
  | .dict members =>
    match Json.get members "credits" with
    | .list rawCredits =>
      (∀ credit ∈ rawCredits.filterMap availableCredit, ∃ text, runtime.str credit.1 = .ok text) ∧
        ∀ a ∈ (rawCredits.filterMap availableCredit).map Prod.snd,
          ∀ b ∈ (rawCredits.filterMap availableCredit).map Prod.snd, a.offset.isSome = b.offset.isSome
    | _ => True
  | _ => True

theorem mapM_parseCredit_ok_iff {entries : List Json} :
    (∃ found, entries.mapM (parseCredit runtime) = .ok found) ↔
      ∀ credit ∈ entries.filterMap availableCredit, ∃ text, runtime.str credit.1 = .ok text := by
  constructor
  · rintro ⟨found, mapped⟩ credit member
    obtain ⟨entry, listed, available⟩ := List.mem_filterMap.mp member
    exact parseCredit_ok_iff.mp (List.ok_of_mapM_ok mapped listed) credit available
  · intro each
    apply List.mapM_total
    intro entry listed
    apply parseCredit_ok_iff.mpr
    intro credit available
    exact each credit (List.mem_filterMap.mpr ⟨entry, listed, available⟩)

theorem parseResetCredits_caught_iff {body : Json} :
    Caught (parseResetCredits runtime body) ↔ CreditsReadable runtime body := by
  cases body with
  | dict members =>
    rw [parseResetCredits, CreditsReadable]
    cases Json.get members "credits" with
    | list rawCredits =>
      simp only [Except.bind_def]
      rw [caught_bind, caught_mapM uncaught_of_parseCredit, mapM_parseCredit_ok_iff]
      refine and_congr_right fun printed => ?_
      obtain ⟨found, mapped⟩ := mapM_parseCredit_ok_iff.mpr printed
      rw [mapped, ← expiries_of_mapM mapped, ← sortM_before_ok_iff, ← caught_uncaught]
      simp [caught_bind, caught_ok]
    | _ => simp [caught_schema]
  | _ => simp [parseResetCredits, CreditsReadable, caught_schema]

end Credits

end Codex

namespace Claude

/-- The time of a window is null or a date; or printing it fails otherwise than with `ValueError`. -/
def Dated (runtime : Runtime) (window : List (String × Json)) : Bool :=
  parseResetsAt runtime (Json.get window "resets_at") ≠ .error .valueError

/-- The time of a window is null or a date, and its utilization is in range. -/
def Fits (runtime : Runtime) (window : List (String × Json)) : Prop :=
  (∃ at_, parseResetsAt runtime (Json.get window "resets_at") = .ok at_) ∧
    (Json.get window "utilization").FitsFloat = true

section Window

variable {key : String} {window : List (String × Json)}

theorem parseWindow_of_not_dated (other : Dated runtime window = false) :
    ∃ e, parseWindow runtime key window = .error e ∧ ¬e.Escapes := by
  rw [Dated, decide_eq_false_iff_not, not_not] at other
  rw [parseWindow, other]
  exact ⟨_, rfl, fun escapes => escapes⟩

theorem uncaught_of_parseWindow {e : Raised} (dated : Dated runtime window = true)
    (raised : parseWindow runtime key window = .error e) : e.Escapes := by
  rw [Dated, decide_eq_true_eq] at dated
  rw [parseWindow] at raised
  split at raised
  · next undated => exact absurd undated dated
  · cases raised
    trivial
  · cases used : (Json.get window "utilization").toFloat with
    | error exc =>
      rw [used] at raised
      cases raised
      trivial
    | ok x =>
      rw [used] at raised
      cases raised

private theorem parseWindow_ok_iff (number : (Json.get window "utilization").isNumber = true) :
    (∃ parsed, parseWindow runtime key window = .ok parsed) ↔ Fits runtime window := by
  rw [Fits, ← Json.toFloat_ok_iff number, parseWindow]
  split
  · next undated => simp [undated]
  · next failed => simp [failed]
  · next at_ dated =>
    rw [dated]
    cases (Json.get window "utilization").toFloat <;> simp [Except.bind_def]

private theorem number_of_isWindowShape (shaped : isWindowShape (.dict window) = true) :
    (Json.get window "utilization").isNumber = true :=
  (Bool.and_eq_true_iff.mp shaped).2

end Window

private theorem number_of_mem {members : List (String × Json)} {member : String × List (String × Json)}
    (listed : member ∈ windowMembers members) : (Json.get member.2 "utilization").isNumber = true := by
  obtain ⟨⟨key, value⟩, _, shaped⟩ := List.mem_filterMap.mp listed
  dsimp only at shaped
  split at shaped
  · next shape =>
    cases value with
    | dict window =>
      cases shaped
      exact number_of_isWindowShape shape.2
    | _ => cases shaped
  · cases shaped

/-- The limits of a body that have the shape of a Fable window. -/
def fableShapes (runtime : Runtime) (members : List (String × Json)) : List (List (String × Json)) :=
  match Json.get members "limits" with
  | .list limits => limits.filterMap (fableShape runtime)
  | _ => []

section Fable

variable {limit : Json}

theorem number_of_fableShape {shape : List (String × Json)} (shaped : fableShape runtime limit = some shape) :
    (Json.get shape "utilization").isNumber = true := by
  simp only [fableShape, Option.bind_eq_bind, Option.bind_eq_some_iff] at shaped
  obtain ⟨members, _, shaped⟩ := shaped
  split at shaped
  · cases shaped
  · simp only [Option.bind_eq_some_iff] at shaped
    obtain ⟨_, _, _, _, shaped⟩ := shaped
    split at shaped
    · split at shaped
      · next fable =>
        cases shaped
        exact number_of_isWindowShape fable.2
      · cases shaped
    · cases shaped

private theorem uncaught_of_fableLimitWindow {e : Raised} (raised : fableLimitWindow runtime limit = .error e) :
    e.Escapes := by
  rw [fableLimitWindow] at raised
  split at raised
  · cases raised
  · next shape _ =>
    split at raised
    · cases raised
    · cases raised
    · next exc notSchema failed =>
      cases raised
      cases dated : Dated runtime shape with
      | true => exact uncaught_of_parseWindow dated failed
      | false =>
        rw [Dated, decide_eq_false_iff_not, not_not] at dated
        rw [parseWindow, dated] at failed
        cases failed
        exact absurd rfl (notSchema _)

private theorem fableLimitWindow_ok_iff :
    (∃ window, fableLimitWindow runtime limit = .ok window) ↔
      ∀ shape ∈ fableShape runtime limit, Dated runtime shape = true → Fits runtime shape := by
  rw [fableLimitWindow]
  cases shaped : fableShape runtime limit with
  | none => simp
  | some shape =>
    have parsed := @parseWindow_ok_iff runtime fableWindowId shape (number_of_fableShape shaped)
    simp only [Option.mem_def, Option.some.injEq, forall_eq', ← parsed]
    cases window : parseWindow runtime fableWindowId shape with
    | ok window => simp
    | error e =>
      cases dated : Dated runtime shape with
      | true =>
        cases e with
        | schema message => exact absurd (uncaught_of_parseWindow dated window) fun escapes => escapes
        | _ => simp
      | false =>
        rw [Dated, decide_eq_false_iff_not, not_not] at dated
        rw [parseWindow, dated] at window
        cases window
        simp

private theorem uncaught_of_fableItem (limit : Json) (e : Raised)
    (raised : (fableLimitWindow runtime limit).bind (fun window => .ok (window.map fun window => (limit, window))) =
      .error e) : e.Escapes := by
  cases parsed : fableLimitWindow runtime limit with
  | ok window =>
    rw [parsed] at raised
    cases raised
  | error exc =>
    rw [parsed] at raised
    cases raised
    exact uncaught_of_fableLimitWindow parsed

private theorem caught_fableWindow {members : List (String × Json)} :
    Caught (fableWindow runtime members) ↔ ∃ window, fableWindow runtime members = .ok window := by
  rw [fableWindow]
  cases Json.get members "limits" with
  | list limits =>
    simp only [Except.bind_def]
    rw [caught_bind, and_iff_left fun found _ => caught_ok _, caught_mapM uncaught_of_fableItem]
    simp only [Except.bind_eq_ok]
    constructor
    · rintro ⟨found, mapped⟩
      exact ⟨_, found, mapped, rfl⟩
    · rintro ⟨_, found, mapped, _⟩
      exact ⟨found, mapped⟩
  | _ => simp [caught_ok]

private theorem fableWindow_ok_iff {members : List (String × Json)} :
    (∃ window, fableWindow runtime members = .ok window) ↔
      ∀ shape ∈ fableShapes runtime members, Dated runtime shape = true → Fits runtime shape := by
  rw [fableWindow, fableShapes]
  cases Json.get members "limits" with
  | list limits =>
    simp only [Except.bind_def, Except.bind_eq_ok, List.mem_filterMap, forall_exists_index, and_imp]
    constructor
    · rintro ⟨_, found, mapped, _⟩ shape limit member shaped
      obtain ⟨_, item⟩ := List.ok_of_mapM_ok mapped member
      obtain ⟨window, parsed, _⟩ := Except.bind_eq_ok.mp item
      exact fableLimitWindow_ok_iff.mp ⟨window, parsed⟩ shape shaped
    · intro each
      have total : ∀ limit ∈ limits, ∃ found, ((fableLimitWindow runtime limit).bind fun window =>
          .ok (window.map fun window => (limit, window))) = .ok found := by
        intro limit member
        obtain ⟨window, parsed⟩ := fableLimitWindow_ok_iff.mpr fun shape shaped => each shape limit member shaped
        exact ⟨_, by rw [parsed, Except.bind_ok]⟩
      obtain ⟨found, mapped⟩ := List.mapM_total total
      exact ⟨_, found, mapped, rfl⟩
  | _ => simp

end Fable

/-- Each window whose predecessors are dated fits when it is dated, and where all are dated so does
each limit of a Fable model. -/
def Readable (runtime : Runtime) (body : Json) : Prop :=
  match body with
  | .dict members =>
    (∀ member ∈ (windowMembers members).takeWhile fun member => Dated runtime member.2, Fits runtime member.2) ∧
      ((∀ member ∈ windowMembers members, Dated runtime member.2 = true) →
        ∀ shape ∈ fableShapes runtime members, Dated runtime shape = true → Fits runtime shape)
  | _ => True

/-- A body that is no schema error. -/
def Complete (runtime : Runtime) (body : Json) : Prop :=
  match body with
  | .dict members => ∀ member ∈ windowMembers members, Dated runtime member.2 = true
  | _ => False

private theorem stops (member : String × List (String × Json)) (other : Dated runtime member.2 = false) :
    ∃ e, parseWindow runtime member.1 member.2 = .error e ∧ ¬e.Escapes := parseWindow_of_not_dated other

private theorem fails (member : String × List (String × Json)) (e : Raised) (dated : Dated runtime member.2 = true)
    (raised : parseWindow runtime member.1 member.2 = .error e) : e.Escapes := uncaught_of_parseWindow dated raised

theorem parse_dict (authName : String) (members : List (String × Json)) :
    parse runtime authName (.dict members) =
      ((windowMembers members).mapM fun member => parseWindow runtime member.1 member.2).bind fun windows =>
        (fableWindow runtime members).bind fun fable =>
          .ok { provider := .claude, authName, planType := none, windows := windows ++ fable.toList } := rfl

theorem parse_caught_iff (authName : String) (body : Json) :
    Caught (parse runtime authName body) ↔ Readable runtime body := by
  cases body with
  | dict members =>
    have windows : Caught ((windowMembers members).mapM fun member => parseWindow runtime member.1 member.2) ↔
        ∀ member ∈ (windowMembers members).takeWhile fun member => Dated runtime member.2,
          Fits runtime member.2 := by
      refine (List.mapM_not_bad_iff stops fails).trans (forall₂_congr fun member listed => ?_)
      exact parseWindow_ok_iff (number_of_mem ((List.takeWhile_prefix _).subset listed))
    rw [parse_dict, caught_bind, Readable, ← windows]
    refine and_congr_right fun caught => ?_
    rw [← fableWindow_ok_iff, ← caught_fableWindow, ← List.mapM_ok_iff_passes stops fails caught]
    simp only [caught_bind, forall_exists_index]
    exact forall₂_congr fun values _ => and_iff_left fun fable _ => caught_ok _
  | _ => simp [parse, Readable, caught_schema]

theorem parse_ok_iff (authName : String) {body : Json} (readable : Readable runtime body) :
    (∃ quota, parse runtime authName body = .ok quota) ↔ Complete runtime body := by
  have caught := (parse_caught_iff authName body).mpr readable
  cases body with
  | dict members =>
    rw [parse_dict, caught_bind] at caught
    rw [parse_dict, Complete, ← List.mapM_ok_iff_passes stops fails caught.1]
    simp only [Except.bind_eq_ok]
    constructor
    · rintro ⟨_, values, mapped, _⟩
      exact ⟨values, mapped⟩
    · rintro ⟨values, mapped⟩
      obtain ⟨fable, found⟩ := caught_fableWindow.mp (caught_bind.mp (caught.2 values mapped)).1
      exact ⟨_, values, mapped, fable, found, rfl⟩
  | _ => simp [parse, Complete]

end Claude

end CliproxyUsage.Quota
