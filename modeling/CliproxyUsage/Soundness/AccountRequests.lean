import CliproxyUsage.Frontend.Api
import CliproxyUsage.Model.QuotaService
import CliproxyUsage.Proofs.Starlette

/-! # Requests for one account

The page names an account in the path of a request, where the name is escaped, dot segments are resolved and
escapes are decoded before the routes are tried. The request reaches the endpoint of that very account, or
the name is not one segment of a path and no account is reached.
-/

namespace CliproxyUsage

open Python JavaScript Frontend

section Statement

/-- A name that is one segment of a path. -/
def IsSegment (authName : String) : Prop := authName ≠ "" ∧ '/' ∉ authName.toList ∧ authName ≠ "." ∧ authName ≠ ".."

instance (authName : String) : Decidable (IsSegment authName) := inferInstanceAs (Decidable (_ ∧ _))

end Statement

section Paths

variable {front : List (List Char)} {seg : List Char}

private theorem plain_quota : PlainSegment "quota".toList := by decide

private theorem plain_reset : PlainSegment "reset".toList := by decide

private theorem plain_provider {provider : String} (known : provider ∈ Quota.providers.map Prod.fst) :
    PlainSegment provider.toList := by
  simp only [Quota.providers, List.map_cons, List.map_nil, List.mem_cons, List.not_mem_nil, or_false] at known
  rcases known with rfl | rfl <;> decide

/-- Escapes after plain segments are decoded where they stand. -/
private theorem unquote_path {tail : List Char} (plain : ∀ seg ∈ front, PlainSegment seg)
    (plainTail : ∀ c ∈ tail, c = '/' ∨ IsSafe c ∧ c ≠ '%') (name : String) :
    unquote (pathText front ++ '/' :: (encodeURIComponent name ++ tail)) =
      pathText front ++ '/' :: (name.toList ++ tail) := by
  have chars : ∀ c ∈ pathText front ++ ['/'], c = '/' ∨ IsSafe c ∧ c ≠ '%' := by
    intro c member
    rcases List.mem_append.mp member with inFront | slash
    · rcases mem_pathText inFront with slash | ⟨seg, listed, inside⟩
      · exact .inl slash
      · exact .inr ((plain seg listed).safe c inside)
    · exact .inl (List.mem_singleton.mp slash)
  have plainChars {chars : List Char} (known : ∀ c ∈ chars, c = '/' ∨ IsSafe c ∧ c ≠ '%') : ∀ c ∈ chars, c ≠ '%' := by
    intro c member
    rcases known c member with rfl | kept
    · decide
    · exact kept.2
  have split : pathText front ++ '/' :: (encodeURIComponent name ++ tail) =
      (pathText front ++ ['/']) ++ (encodeURIComponent name ++ tail) := by simp
  have ascii : ∀ c ∈ pathText front ++ '/' :: (encodeURIComponent name ++ tail), isAscii c = true := by
    have known {c : Char} (safe : c = '/' ∨ IsSafe c) : isAscii c = true := by
      rcases safe with rfl | safe
      · rfl
      · have := safe.small
        exact decide_eq_true (by omega)
    intro c member
    rw [split, List.mem_append, @List.mem_append _ _ (encodeURIComponent name)] at member
    rcases member with inFront | inName | inTail
    · exact known ((chars c inFront).imp_right And.left)
    · exact known (.inr (safe_of_mem_encodeURIComponent inName))
    · exact known ((plainTail c inTail).imp_right And.left)
  have tailDecoded := percentDecode_append_of_plain (plainChars plainTail) []
  rw [List.append_nil, percentDecode, List.append_nil] at tailDecoded
  rw [unquote_ascii ascii, split, percentDecode_append_of_plain (plainChars chars), percentDecode_encodeURIComponent,
    tailDecoded, ← Utf8.encode_append, ← Utf8.encode_append, Utf8.decode_encode]
  simp

end Paths

section Targets

variable {app : App} {base : List (List Char)} {provider : String}

/-- The path of the page's requests for an account, before its dot segments are resolved. -/
private theorem apiPath_text (plain : PlainBase app.basePath base) (provider : String) (name : List Char) :
    (apiPath (servedConfig app) ("/quota/" ++ provider ++ "/" ++ String.ofList name)).toList =
      pathText (base ++ ["api".toList, "quota".toList, provider.toList, name]) := by
  have api : (prefixed app.basePath "/api").toList = pathText (base ++ ["api".toList]) := by
    rw [prefixed]
    cases base with
    | nil =>
      have root : app.basePath = "/" := by
        rw [← String.toList_inj, plain.text]
        rfl
      rw [if_pos root]
      rfl
    | cons first rest =>
      rw [if_neg (ne_root plain), String.toList_append, plain.text, pathText_concat (List.cons_ne_nil _ _)]
      rfl
  have more (seg : List Char) (front : List (List Char)) : pathText (base ++ "api".toList :: front ++ [seg]) =
      pathText (base ++ "api".toList :: front) ++ '/' :: seg := pathText_concat (by simp) seg
  have first := more "quota".toList []
  have second := more provider.toList ["quota".toList]
  have third := more name ["quota".toList, provider.toList]
  simp only [List.append_assoc, List.cons_append, List.nil_append] at first second third
  rw [third, second, first, apiPath, RuntimeConfig.api, servedConfig, Option.getD_some, String.toList_append, api]
  simp [List.append_assoc]

/-- Where the quota endpoints of a base path are. -/
private def quotaBase (base : List (List Char)) : List (List Char) := base ++ ["api".toList, "quota".toList]

private theorem plain_quotaBase (plain : PlainBase app.basePath base) : ∀ seg ∈ quotaBase base, PlainSegment seg := by
  intro seg member
  simp only [quotaBase, List.mem_append, List.mem_cons, List.not_mem_nil, or_false] at member
  rcases member with below | rfl | rfl
  · exact plain.plain seg below
  · exact plain_api
  · exact plain_quota

private theorem plain_account (plain : PlainBase app.basePath base) (known : provider ∈ Quota.providers.map Prod.fst) :
    ∀ seg ∈ quotaBase base ++ [provider.toList], PlainSegment seg := by
  intro seg member
  rcases List.mem_append.mp member with below | last
  · exact plain_quotaBase plain seg below
  · rw [List.mem_singleton.mp last]
    exact plain_provider known

/-- The path that is sent for a name: a dot segment takes itself, or the provider too, out of it. -/
private theorem requestPath_account (plain : PlainBase app.basePath base)
    (known : provider ∈ Quota.providers.map Prod.fst) (name : String) {after : List (List Char)}
    (plainAfter : ∀ seg ∈ after, PlainSegment seg) :
    requestPath (pathText (quotaBase base ++ provider.toList :: encodeURIComponent name :: after)) =
      if encodeURIComponent name ∈ doubleDots then pathText (quotaBase base ++ if after = [] then [[]] else after)
      else if encodeURIComponent name ∈ singleDots then
        pathText (quotaBase base ++ provider.toList :: if after = [] then [[]] else after)
      else pathText (quotaBase base ++ provider.toList :: encodeURIComponent name :: after) := by
  have front := plain_account plain known
  have safe : ∀ seg ∈ quotaBase base ++ provider.toList :: encodeURIComponent name :: after, ∀ c ∈ seg, IsSafe c := by
    intro seg member c inside
    rw [List.append_cons, List.mem_append] at member
    rcases member with before | rest
    · exact ((front seg before).safe c inside).1
    · rcases List.mem_cons.mp rest with rfl | later
      · exact safe_of_mem_encodeURIComponent inside
      · exact ((plainAfter seg later).safe c inside).1
  have tail (path : List (List Char)) : resolveSegments path after = path ++ after := by
    have kept := @resolveSegments_append path after [] (fun seg listed c inside => ((plainAfter seg listed).safe c inside).1)
      fun seg listed => (plainAfter seg listed).undotted
    rwa [List.append_nil, resolveSegments] at kept
  rw [requestPath_pathText (by simp) safe, List.append_cons, resolveSegments_append
    (fun seg listed c inside => ((front seg listed).safe c inside).1) fun seg listed => (front seg listed).undotted,
    List.nil_append, resolveSegments]
  simp only [tail, List.contains_iff_mem]
  have last : (quotaBase base ++ [provider.toList]).dropLast = quotaBase base := List.dropLast_concat
  split
  · rw [last]
    cases after <;> simp
  · split
    · cases after <;> simp
    · rw [percentEncode_of_safe fun c inside => safe_of_mem_encodeURIComponent inside]
      simp

/-- What the server reads after its quota path: a name that is a dot segment is gone. -/
private theorem unquote_account (plain : PlainBase app.basePath base) (known : provider ∈ Quota.providers.map Prod.fst)
    (name : String) {after : List (List Char)} (ends : after = [] ∨ after = ["reset".toList]) :
    unquote (requestPath (pathText (quotaBase base ++ provider.toList :: encodeURIComponent name :: after))) =
      pathText (quotaBase base) ++ '/' :: (
        if name = ".." then (after.flatMap fun seg => '/' :: seg).drop 1
        else provider.toList ++ '/' :: (
          if name = "." then (after.flatMap fun seg => '/' :: seg).drop 1
          else name.toList ++ after.flatMap fun seg => '/' :: seg)) := by
  have plainAfter : ∀ seg ∈ after, PlainSegment seg := by
    rcases ends with rfl | rfl
    · simp
    · intro seg member
      rw [List.mem_singleton.mp member]
      exact plain_reset
  have below : quotaBase base ≠ [] := by simp [quotaBase]
  have tail : ∀ c ∈ after.flatMap fun seg => '/' :: seg, c = '/' ∨ IsSafe c ∧ c ≠ '%' := by
    intro c member
    obtain ⟨seg, listed, inside⟩ := List.mem_flatMap.mp member
    exact (List.mem_cons.mp inside).imp_right ((plainAfter seg listed).safe c)
  have named : ∀ c ∈ provider.toList, c = '/' ∨ IsSafe c ∧ c ≠ '%' := fun c inside =>
    .inr ((plain_provider known).safe c inside)
  have last : ((if after = [] then [[]] else after).flatMap fun seg => '/' :: seg) =
      '/' :: (after.flatMap fun seg => '/' :: seg).drop 1 := by
    rcases ends with rfl | rfl <;> rfl
  rw [requestPath_account plain known name plainAfter]
  by_cases double : name = ".."
  · rw [if_pos (by subst double; decide), if_pos double, pathText_append below, last]
    exact unquote_path (plain_quotaBase plain) (fun c member => tail c (List.mem_of_mem_drop member)) ""
  · rw [if_neg (mt (encodeURIComponent_dots name).2 double), if_neg double]
    by_cases single : name = "."
    · rw [if_pos (by subst single; decide), if_pos single, pathText_append below, List.flatMap_cons, last]
      refine unquote_path (plain_quotaBase plain) (fun c member => ?_) ""
      rcases List.mem_append.mp member with inProvider | later
      · exact named c inProvider
      · rcases List.mem_cons.mp later with slash | inTail
        · exact .inl slash
        · exact tail c (List.mem_of_mem_drop inTail)
    · rw [if_neg (mt (encodeURIComponent_dots name).1 single), if_neg single, List.append_cons,
        pathText_append (by simp), List.flatMap_cons, List.cons_append, unquote_path (plain_account plain known) tail name,
        pathText_concat below]
      simp

end Targets

section Routing

variable {front : List (List Char)}

variable {app : App} {base : List (List Char)}

private theorem free_quotaBase (plain : PlainBase app.basePath base) : ∀ seg ∈ quotaBase base, '/' ∉ seg :=
  fun seg listed => (plain_quotaBase plain seg listed).free

/-- The routes that are tried before those of the quota endpoints. -/
private def earlierRoutes (app : App) : List Route :=
  App.fixed (app.api "/health-check") .healthCheck :: app.usageRoutes ++
    [App.fixed (app.below "/usage-config.js") .runtimeConfig]

/-- No earlier route is below the quota path. -/
private theorem earlier_none (plain : PlainBase app.basePath base) (rest : List Char) :
    ∀ route ∈ earlierRoutes app, ∀ params,
      ¬Fits route.parts (segments (pathText (quotaBase base) ++ '/' :: rest)) params := by
  have below : quotaBase base ≠ [] := by simp [quotaBase]
  have free := free_quotaBase plain
  have api {path : String} {more : List Char} (slash : path.toList = '/' :: more)
      (apart : (more.splitOn '/').head? ≠ some "quota".toList) (endpoint : Endpoint) (params : List String) :
      ¬Fits (App.fixed (app.api path) endpoint).parts (segments (pathText (quotaBase base) ++ '/' :: rest)) params := by
    rw [App.fixed, api_eq plain slash]
    refine not_fits_fixed below free (fun more same => apart ?_) rest params
    rw [quotaBase, List.append_assoc, List.append_cancel_left_eq] at same
    rw [(List.cons.inj same).2]
    rfl
  intro route member params
  simp only [earlierRoutes, App.usageRoutes, List.cons_append, List.nil_append, List.mem_cons, List.not_mem_nil,
    or_false] at member
  rcases member with rfl | rfl | rfl | rfl | rfl
  · exact api rfl (by decide) _ params
  · exact api rfl (by decide) _ params
  · exact api rfl (by decide) _ params
  · exact api rfl (by decide) _ params
  · rw [App.fixed, below_eq plain (show "/usage-config.js".toList = '/' :: "usage-config.js".toList by rfl)]
    refine not_fits_fixed below free (fun more same => ?_) rest params
    rw [quotaBase, List.append_assoc, List.append_cancel_left_eq] at same
    have first : ("usage-config.js".toList.splitOn '/').head? = some "api".toList := congrArg List.head? same
    exact absurd first (by decide)

/-- The quota endpoints of a server that is configured for them. -/
private theorem routes_eq (configured : app.quotaConfigured = true) : app.routes = earlierRoutes app ++
    App.fixed (app.api "/quota/accounts") .accounts ::
      ⟨some [.get], app.api "/quota" ++ [.param, .param], App.account .quota⟩ ::
      ⟨some [.post], app.api "/quota" ++ [.param, .param, .text "reset".toList], App.account .reset⟩ :: app.spaRoutes := by
  simp [App.routes, earlierRoutes, App.quotaRoutes, configured]

/-- Below the quota path only page routes for GET are left. -/
private theorem spaRoutes_get (plain : PlainBase app.basePath base) {route : Route} (listed : route ∈ app.spaRoutes)
    {rest : List Char} {endpoint : Endpoint}
    (answered : route.Answers (pathText (quotaBase base) ++ '/' :: rest) endpoint) : route.methods = some [.get] := by
  rw [App.spaRoutes] at listed
  split at listed
  · cases listed
  · rcases List.mem_cons.mp listed with rfl | page
    · obtain ⟨params, fits, _⟩ := answered
      rw [segments_append (by simp [quotaBase]) (free_quotaBase plain),
        below_eq plain (show "/assets".toList = '/' :: "assets".toList by rfl), fits_append] at fits
      obtain ⟨more, same, _⟩ := fits
      rw [quotaBase, List.append_assoc, List.append_assoc, List.append_cancel_left_eq] at same
      exact absurd (List.cons.inj same).1 (by decide)
    · split at page
      · rw [List.mem_singleton.mp page]
      · rcases List.mem_cons.mp page with rfl | nested
        · rfl
        · rw [List.mem_singleton.mp nested]

private theorem api_quota_eq (plain : PlainBase app.basePath base) :
    app.api "/quota" = (quotaBase base).map .text :=
  api_eq plain (show "/quota".toList = '/' :: "quota".toList by rfl)

/-- The last parameter before a reset is a text without slashes too. -/
private theorem fits_reset {name : List Char} {params : List String} :
    Fits [.param, .text "reset".toList] ((name ++ '/' :: "reset".toList).splitOn '/') params ↔
      params = [String.ofList name] ∧ name ≠ [] ∧ '/' ∉ name := by
  have parts : (name ++ '/' :: "reset".toList).splitOn '/' = name.splitOn '/' ++ ["reset".toList] := by
    rw [List.splitOn_append_cons_self]
    rfl
  rw [parts]
  simp only [fits_param, fits_text, fits_nil]
  constructor
  · rintro ⟨seg, _, _, one, some_, rfl, _, rfl, rfl, rfl⟩
    obtain ⟨free, rfl⟩ := splitOn_eq_singleton (List.append_cancel_right one)
    exact ⟨rfl, some_, free⟩
  · rintro ⟨rfl, some_, free⟩
    refine ⟨name, _, [], ?_, some_, rfl, [], rfl, rfl, rfl⟩
    rw [List.splitOn_eq_singleton free]
    rfl

section Account

variable {provider : String}

private theorem isSegment_iff (name : String) (other : name ≠ "." ∧ name ≠ "..") :
    (name.toList ≠ [] ∧ '/' ∉ name.toList) ↔ IsSegment name := by
  have blank : name.toList ≠ [] ↔ name ≠ "" := (@String.toList_inj name "").not
  rw [IsSegment, blank]
  exact ⟨fun one => ⟨one.1, one.2, other⟩, fun one => ⟨one.1, one.2.1⟩⟩

/-- The parameters of a quota request. -/
private theorem fits_fetch (known : provider ∈ Quota.providers.map Prod.fst) (name : String) {params : List String} :
    Fits [.param, .param] ((if name = ".." then [] else provider.toList ++ '/' ::
        (if name = "." then [] else name.toList ++ [])).splitOn '/') params ↔
      params = [provider, name] ∧ IsSegment name := by
  have named := plain_provider known
  by_cases double : name = ".."
  · subst double
    rw [if_pos rfl]
    refine iff_of_false ?_ fun one => one.2.2.2.2 rfl
    simp [List.splitOn_nil]
  · rw [if_neg double, fits_provider named.some_ named.free, String.ofList_toList]
    by_cases single : name = "."
    · subst single
      rw [if_pos rfl]
      refine iff_of_false ?_ fun one => one.2.2.2.1 rfl
      rintro ⟨last, _, fits⟩
      exact (fits_name.mp fits).2.1 rfl
    · rw [if_neg single, List.append_nil]
      constructor
      · rintro ⟨last, rfl, fits⟩
        obtain ⟨rfl, one⟩ := fits_name.mp fits
        exact ⟨by rw [String.ofList_toList], (isSegment_iff name ⟨single, double⟩).mp one⟩
      · rintro ⟨rfl, one⟩
        exact ⟨[name], rfl, fits_name.mpr ⟨by rw [String.ofList_toList], (isSegment_iff name ⟨single, double⟩).mpr one⟩⟩

/-- The parameters of a reset request. -/
private theorem fits_resetQuota (known : provider ∈ Quota.providers.map Prod.fst) (name : String)
    {params : List String} :
    Fits [.param, .param, .text "reset".toList] ((if name = ".." then "reset".toList else provider.toList ++ '/' ::
        (if name = "." then "reset".toList else name.toList ++ '/' :: "reset".toList)).splitOn '/') params ↔
      params = [provider, name] ∧ IsSegment name := by
  have named := plain_provider known
  have alone : "reset".toList.splitOn '/' = ["reset".toList] := by decide
  by_cases double : name = ".."
  · subst double
    rw [if_pos rfl, alone]
    refine iff_of_false ?_ fun one => one.2.2.2.2 rfl
    simp
  · rw [if_neg double, fits_provider named.some_ named.free, String.ofList_toList]
    by_cases single : name = "."
    · subst single
      rw [if_pos rfl, alone]
      refine iff_of_false ?_ fun one => one.2.2.2.1 rfl
      simp
    · rw [if_neg single]
      constructor
      · rintro ⟨last, rfl, fits⟩
        obtain ⟨rfl, one⟩ := fits_reset.mp fits
        exact ⟨by rw [String.ofList_toList], (isSegment_iff name ⟨single, double⟩).mp one⟩
      · rintro ⟨rfl, one⟩
        exact ⟨[name], rfl, fits_reset.mpr ⟨by rw [String.ofList_toList], (isSegment_iff name ⟨single, double⟩).mpr one⟩⟩

end Account

end Routing

section Requests

variable {app : App} {base : List (List Char)} {provider : String}

/-- What the server reads of a quota request. -/
private theorem unquote_fetch (plain : PlainBase app.basePath base) (known : provider ∈ Quota.providers.map Prod.fst)
    (name : String) : unquote (fetchQuotaPath (servedConfig app) provider name) =
      pathText (quotaBase base) ++ '/' :: (if name = ".." then [] else provider.toList ++ '/' ::
        (if name = "." then [] else name.toList ++ [])) := by
  have path : (apiPath (servedConfig app) (accountPath provider name)).toList =
      pathText (quotaBase base ++ provider.toList :: encodeURIComponent name :: []) := by
    rw [accountPath, apiPath_text plain, quotaBase, List.append_assoc]
    rfl
  rw [fetchQuotaPath, path, unquote_account plain known name (.inl rfl)]
  rfl

/-- What the server reads of a reset request. -/
private theorem unquote_reset (plain : PlainBase app.basePath base) (known : provider ∈ Quota.providers.map Prod.fst)
    (name : String) : unquote (resetQuotaPath (servedConfig app) provider name) =
      pathText (quotaBase base) ++ '/' :: (if name = ".." then "reset".toList else provider.toList ++ '/' ::
        (if name = "." then "reset".toList else name.toList ++ '/' :: "reset".toList)) := by
  have path : (apiPath (servedConfig app) (accountPath provider name ++ "/reset")).toList =
      pathText (quotaBase base ++ provider.toList :: encodeURIComponent name :: ["reset".toList]) := by
    have whole : apiPath (servedConfig app) (accountPath provider name ++ "/reset") =
        apiPath (servedConfig app) (accountPath provider name) ++ "/reset" := by
      rw [apiPath, apiPath, String.append_assoc]
    have last := @pathText_concat (quotaBase base ++ [provider.toList, encodeURIComponent name]) (by simp) "reset".toList
    rw [List.append_assoc] at last
    rw [whole, String.toList_append, accountPath, apiPath_text plain]
    exact (congrArg (· ++ "/reset".toList) (by rw [quotaBase, List.append_assoc]; rfl)).trans last.symm
  rw [resetQuotaPath, path, unquote_account plain known name (.inr rfl)]
  rfl

private theorem unbroken_quota (plain : PlainBase app.basePath base) {rest : List Char} (unbroken : '\n' ∉ rest) :
    '\n' ∉ pathText (quotaBase base) ++ '/' :: rest := by
  rw [List.mem_append, List.mem_cons]
  rintro (front | slash | later)
  · exact unbroken_pathText (plain_quotaBase plain) front
  · exact absurd slash (by decide)
  · exact unbroken later

private theorem undocumented_quota (plain : PlainBase app.basePath base) (rest : List Char) :
    segments (pathText (quotaBase base) ++ '/' :: rest) ∉ documentationPaths := by
  rw [segments_append (by simp [quotaBase]) (free_quotaBase plain)]
  exact undocumented_of_api (by simp [quotaBase])

/-- The route of an account's endpoint answers a request that has its parameters. -/
private theorem answers_quota (plain : PlainBase app.basePath base) {parts : List Part} {rest : List Char}
    {params : List String} (fits : Fits parts (rest.splitOn '/') params) {named : List String → Option Endpoint}
    {endpoint : Endpoint} (own : named params = some endpoint) (methods : Option (List Method)) :
    (Route.mk methods (app.api "/quota" ++ parts) named).Answers (pathText (quotaBase base) ++ '/' :: rest) endpoint := by
  refine ⟨params, ?_, own⟩
  rw [segments_append (by simp [quotaBase]) (free_quotaBase plain), api_quota_eq plain, fits_append]
  exact ⟨_, rfl, fits⟩

/-- What follows the quota path is on one line when the name is. -/
private theorem unbroken_rest (known : provider ∈ Quota.providers.map Prod.fst) {name : String}
    (unbroken : '\n' ∉ name.toList) {gone tail : List Char} (short : '\n' ∉ gone) (long : '\n' ∉ tail) :
    '\n' ∉ if name = ".." then gone else provider.toList ++ '/' :: (if name = "." then gone else name.toList ++ tail) := by
  have plain : '\n' ∉ provider.toList := fun broken => absurd ((plain_provider known).safe _ broken).1 (by decide)
  split_ifs <;> simp [plain, short, long, unbroken]

/-- A request below the quota path is handled by a quota endpoint or by the page. -/
private theorem handled_cases {router : Router} (documented : router.Documented) (plain : PlainBase app.basePath base)
    (configured : app.quotaConfigured = true) {method : Method} {rest : List Char} (unbroken : '\n' ∉ rest)
    {endpoint : Endpoint}
    (handled : router.handles app.routes method (pathText (quotaBase base) ++ '/' :: rest) = some endpoint) :
    method = .get ∧ (endpoint = .accounts ∨ (∃ answer, endpoint = .spa answer) ∨ endpoint = .spaRedirect ∨
        (∃ asset, endpoint = .assets asset) ∨
        ∃ p n, Fits [.param, .param] (rest.splitOn '/') [p, n] ∧ endpoint = .quota p n) ∨
      method = .post ∧
        ∃ p n, Fits [.param, .param, .text "reset".toList] (rest.splitOn '/') [p, n] ∧ endpoint = .reset p n := by
  have below : quotaBase base ≠ [] := by simp [quotaBase]
  have free := free_quotaBase plain
  have read {parts : List Part} {params : List String}
      (fits : Fits ((quotaBase base).map .text ++ parts) (segments (pathText (quotaBase base) ++ '/' :: rest)) params) :
      Fits parts (rest.splitOn '/') params := by
    rw [segments_append below free, fits_append] at fits
    obtain ⟨more, same, fits⟩ := fits
    rwa [List.append_cancel_left same]
  rcases documented.only _ _ _ _ (unbroken_quota plain unbroken) handled with
    ⟨listed, _⟩ | ⟨route, listed, accepted, answered⟩
  · exact absurd listed (undocumented_quota plain rest)
  · rw [routes_eq configured] at listed
    simp only [List.mem_append, List.mem_cons] at listed
    rcases listed with earlier | rfl | rfl | rfl | page
    · obtain ⟨params, fits, _⟩ := answered
      exact absurd fits (earlier_none plain rest route earlier params)
    · obtain ⟨params, _, named⟩ := answered
      cases named
      cases method <;> first | exact .inl ⟨rfl, .inl rfl⟩ | cases accepted
    · obtain ⟨params, fits, named⟩ := answered
      rw [api_quota_eq plain] at fits
      obtain ⟨p, n, rfl, rfl⟩ := account_eq_some named
      cases method <;> first | exact .inl ⟨rfl, .inr (.inr (.inr (.inr ⟨p, n, read fits, rfl⟩)))⟩ | cases accepted
    · obtain ⟨params, fits, named⟩ := answered
      rw [api_quota_eq plain] at fits
      obtain ⟨p, n, rfl, rfl⟩ := account_eq_some named
      cases method <;> first | exact .inr ⟨rfl, p, n, read fits, rfl⟩ | cases accepted
    · have get := spaRoutes_get plain page answered
      rw [Route.accepts, get] at accepted
      have same : method = .get := by cases method <;> first | rfl | exact absurd accepted (by decide)
      rcases page_answers page answered with asset | redirect | answer
      · exact .inl ⟨same, .inr (.inr (.inr (.inl asset)))⟩
      · exact .inl ⟨same, .inr (.inr (.inl redirect))⟩
      · exact .inl ⟨same, .inr (.inl answer)⟩

/-- The list of accounts is not below a provider. -/
private theorem accounts_none (plain : PlainBase app.basePath base) (known : provider ∈ Quota.providers.map Prod.fst)
    (rest : List Char) (params : List String) :
    ¬Fits (App.fixed (app.api "/quota/accounts") .accounts).parts
      (segments (pathText (quotaBase base) ++ '/' :: (provider.toList ++ '/' :: rest))) params := by
  have path : pathText (quotaBase base) ++ '/' :: (provider.toList ++ '/' :: rest) =
      pathText (quotaBase base ++ [provider.toList]) ++ '/' :: rest := by
    rw [pathText_concat (by simp [quotaBase])]
    simp
  have other : provider.toList ≠ "accounts".toList := by
    simp only [Quota.providers, List.map_cons, List.map_nil, List.mem_cons, List.not_mem_nil, or_false] at known
    rcases known with rfl | rfl <;> decide
  rw [path, App.fixed, api_eq plain (show "/quota/accounts".toList = '/' :: "quota/accounts".toList by rfl)]
  refine not_fits_fixed (by simp) (fun seg listed => (plain_account plain known seg listed).free) (fun more same => ?_)
    rest params
  rw [quotaBase, List.append_assoc, List.append_assoc, List.append_cancel_left_eq] at same
  have second : ("accounts".toList : List Char) = provider.toList :=
    (List.cons.inj (List.cons.inj (List.cons.inj same).2).2).1
  exact other second.symm

end Requests

/-- The page's requests for an account reach the endpoint of that very account when its name is one segment of a path, and
otherwise they reach no account. A reset that is not of the account is not handled at all. -/
theorem account_requests_iff (router : Router) (documented : router.Documented) (app : App) (base : List (List Char))
    (plain : PlainBase app.basePath base) (configured : app.quotaConfigured = true) (provider : String)
    (known : provider ∈ Quota.providers.map Prod.fst) (authName : String) (unbroken : '\n' ∉ authName.toList) :
    (∀ p n, app.request router .get (fetchQuotaPath (servedConfig app) provider authName) = some (.quota p n) ↔
      p = provider ∧ n = authName ∧ IsSegment authName) ∧
    ∀ endpoint, app.request router .post (resetQuotaPath (servedConfig app) provider authName) = some endpoint ↔
      endpoint = .reset provider authName ∧ IsSegment authName := by
  have fetched := @unbroken_rest _ known _ unbroken [] [] (by simp) (by simp)
  have reset := @unbroken_rest _ known _ unbroken "reset".toList ('/' :: "reset".toList) (by decide) (by decide)
  constructor
  · intro p n
    rw [App.request, documented.decodes, unquote_fetch plain known]
    constructor
    · intro handled
      rcases handled_cases documented plain configured fetched handled with
        ⟨_, accounts | ⟨_, page⟩ | page | ⟨_, page⟩ | ⟨p', n', fits, same⟩⟩ | ⟨post, _⟩
      · cases accounts
      · cases page
      · cases page
      · cases page
      · cases same
        obtain ⟨params, one⟩ := (fits_fetch known authName).mp fits
        obtain ⟨rfl, rest⟩ := List.cons.inj params
        exact ⟨rfl, (List.cons.inj rest).1, one⟩
      · cases post
    · rintro ⟨rfl, rfl, one⟩
      rw [routes_eq configured, List.append_cons (earlierRoutes app)]
      refine documented.first _ _ _ _ _ _ (unbroken_quota plain fetched) (undocumented_quota plain _)
        (fun other listed _ => ?_) rfl (answers_quota plain ((fits_fetch known n).mpr ⟨rfl, one⟩) rfl _)
      rcases List.mem_append.mp listed with earlier | last
      · exact earlier_none plain _ other earlier
      · rw [List.mem_singleton.mp last, if_neg one.2.2.2]
        exact accounts_none plain known _
  · intro endpoint
    rw [App.request, documented.decodes, unquote_reset plain known]
    constructor
    · intro handled
      rcases handled_cases documented plain configured reset handled with ⟨get, _⟩ | ⟨_, p', n', fits, rfl⟩
      · cases get
      · obtain ⟨params, one⟩ := (fits_resetQuota known authName).mp fits
        obtain ⟨rfl, rest⟩ := List.cons.inj params
        obtain ⟨rfl, _⟩ := List.cons.inj rest
        exact ⟨rfl, one⟩
    · rintro ⟨rfl, one⟩
      rw [routes_eq configured, List.append_cons (earlierRoutes app), List.append_cons (earlierRoutes app ++ _)]
      refine documented.first _ _ _ _ _ _ (unbroken_quota plain reset) (undocumented_quota plain _)
        (fun other listed accepted => ?_) rfl (answers_quota plain ((fits_resetQuota known authName).mpr ⟨rfl, one⟩) rfl _)
      rw [List.mem_append, List.mem_append, List.mem_singleton, List.mem_singleton] at listed
      rcases listed with (earlier | rfl) | rfl
      · exact earlier_none plain _ other earlier
      · cases accepted
      · cases accepted

/-- A server below a base path, with its page built. -/
def teamApp : App where
  basePath := "/team/usage"
  quotaConfigured := true
  spa := some fun _ => false

/-- A name with separators of paths and queries keeps its account, and one with a slash has none. -/
theorem account_requests_team :
    teamApp.request starlette .post (resetQuotaPath (servedConfig teamApp) "codex" "ä? #%2F&.json") =
        some (.reset "codex" "ä? #%2F&.json") ∧
      ∀ endpoint, teamApp.request starlette .post (resetQuotaPath (servedConfig teamApp) "codex" "../claude/a.json") ≠
        some endpoint := by
  have plain : PlainBase teamApp.basePath ["team".toList, "usage".toList] :=
    ⟨by decide, by
      simp only [List.mem_cons, List.not_mem_nil, or_false, forall_eq_or_imp, forall_eq]
      exact ⟨by decide, by decide⟩⟩
  have requests {authName : String} (unbroken : '\n' ∉ authName.toList) :=
    account_requests_iff starlette starlette_documented teamApp _ plain rfl "codex" (by decide) authName unbroken
  refine ⟨((requests (by decide)).2 _).mpr ⟨rfl, by decide⟩, fun endpoint handled => ?_⟩
  have one := (((requests (by decide)).2 endpoint).mp handled).2
  exact absurd one (by decide)

end CliproxyUsage
