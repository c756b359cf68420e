import CliproxyUsage.Proofs.Starlette

/-! # The page and the API

A path below the API is answered by an endpoint of the API or not found, and never with the page; any other
single segment below the base path is answered with the page or one of its files.
-/

namespace CliproxyUsage

open Python JavaScript

section Statement

/-- The endpoints that answer with data. -/
def Endpoint.IsApi : Endpoint → Prop
  | .healthCheck | .summary | .breakdown | .options | .accounts | .quota .. | .reset .. | .quotaDisabled => True
  | .documentation | .runtimeConfig | .assets _ | .spaRedirect | .spa _ => False

end Statement

variable {app : App} {base : List (List Char)} {seg : List Char}

private theorem free_base (plain : PlainBase app.basePath base) : ∀ seg ∈ base, '/' ∉ seg :=
  fun seg listed => (plain.plain seg listed).free

/-- Segments of the base path and one more. -/
private theorem plain_page (plain : PlainBase app.basePath base) (own : PlainSegment seg) :
    ∀ other ∈ base ++ [seg], PlainSegment other := by
  intro other listed
  rcases List.mem_append.mp listed with below | last
  · exact plain.plain other below
  · rwa [List.mem_singleton.mp last]

private theorem basePath_segments {first : List Char} {rest : List (List Char)}
    (plain : PlainBase app.basePath (first :: rest)) : segments app.basePath.toList = first :: rest := by
  rw [plain.text, segments_pathText (List.cons_ne_nil _ _) (free_base plain)]

/-- The routes of the page, below the base path. -/
private theorem spaRoutes_eq (plain : PlainBase app.basePath base) {isFile : String → Bool} (built : app.spa = some isFile) :
    app.spaRoutes = ⟨none, (base ++ ["assets".toList]).map .text ++ [.rest], fun params => params.head?.map .assets⟩ ::
      (if base = [] then [] else [App.fixed (base.map .text) .spaRedirect]) ++
      [⟨some [.get], base.map .text ++ [.rest], fun params => params.head?.map fun path => .spa (serveSpa isFile path)⟩] := by
  have assets : app.below "/assets" = (base ++ ["assets".toList]).map .text := by
    rw [below_eq plain (show "/assets".toList = '/' :: "assets".toList by rfl)]
    rfl
  rw [App.spaRoutes, built]
  dsimp only
  rw [assets]
  cases base with
  | nil =>
    have root : app.basePath = "/" := by
      rw [← String.toList_inj, plain.text]
      rfl
    rw [if_pos root, if_pos rfl]
    rfl
  | cons first rest =>
    rw [if_neg (ne_root plain), if_neg (List.cons_ne_nil _ _), basePath_segments plain]
    rfl

/-- The page is not found below the API. -/
private theorem serveSpa_api (isFile : String → Bool) (more : List (List Char)) :
    serveSpa isFile (String.ofList (['/'].intercalate ("api".toList :: more))) = .notFound := by
  rw [serveSpa, if_pos]
  cases more with
  | nil => exact .inl (by rw [List.intercalate_singleton, String.ofList_toList])
  | cons next rest =>
    refine .inr ⟨['/'].intercalate (next :: rest), ?_⟩
    simp only [String.toList_ofList, List.intercalate_cons_cons]
    rfl

/-- Any other single segment is a file of the page, or its shell. -/
private theorem serveSpa_segment (isFile : String → Bool) (plain : PlainSegment seg) (other : seg ≠ "api".toList) :
    serveSpa isFile (String.ofList seg) ≠ .notFound := by
  have outside : ¬(String.ofList seg = "api" ∨ "api/".toList <+: (String.ofList seg).toList) := by
    rw [String.toList_ofList, ← String.toList_inj, String.toList_ofList]
    rintro (same | ⟨rest, same⟩)
    · exact other same
    · apply plain.free
      rw [← same]
      simp
  rw [serveSpa, if_neg outside]
  split <;> simp

section Api

/-- Where the API of a base path is. -/
private def apiBase (base : List (List Char)) : List (List Char) := base ++ ["api".toList]

private theorem free_apiBase (plain : PlainBase app.basePath base) : ∀ seg ∈ apiBase base, '/' ∉ seg :=
  fun seg listed => (plain_page plain plain_api seg listed).free

/-- Nothing of the page is found below the API. -/
private theorem spaRoutes_api (plain : PlainBase app.basePath base) {route : Route} (listed : route ∈ app.spaRoutes)
    {rest : List Char} {endpoint : Endpoint}
    (answered : route.Answers (pathText (apiBase base) ++ '/' :: rest) endpoint) : endpoint = .spa .notFound := by
  cases spa : app.spa with
  | none => simp [App.spaRoutes, spa] at listed
  | some isFile =>
    rw [spaRoutes_eq plain spa] at listed
    obtain ⟨params, fits, named⟩ := answered
    rw [segments_append (by simp [apiBase]) (free_apiBase plain), apiBase, List.append_assoc] at fits
    simp only [List.cons_append, List.mem_cons, List.mem_append, List.not_mem_nil, or_false] at listed
    rcases listed with rfl | redirect | rfl
    · obtain ⟨more, same, _⟩ := (fits_append _).mp fits
      rw [List.append_assoc, List.append_cancel_left_eq] at same
      exact absurd (List.cons.inj same).1 (by decide)
    · split at redirect
      · cases redirect
      · rw [List.mem_singleton.mp redirect] at fits
        have same := (fits_fixed.mp fits).1
        simp at same
    · obtain ⟨more, same, fits⟩ := (fits_append _).mp fits
      rw [← List.append_cancel_left same, fits_rest] at fits
      obtain ⟨_, rfl⟩ := fits
      cases named
      exact congrArg Endpoint.spa (serveSpa_api isFile _)

/-- A request below the API is handled by an endpoint of the API, or not found. -/
private theorem isApi_of_handled {router : Router} (documented : router.Documented) (plain : PlainBase app.basePath base)
    {method : Method} {rest : List Char} (unbroken : '\n' ∉ rest) {endpoint : Endpoint}
    (handled : router.handles app.routes method (pathText (apiBase base) ++ '/' :: rest) = some endpoint) :
    endpoint.IsApi ∨ endpoint = .spa .notFound := by
  have some_ : apiBase base ≠ [] := by simp [apiBase]
  have free := free_apiBase plain
  have line : '\n' ∉ pathText (apiBase base) ++ '/' :: rest := by
    rw [List.mem_append, List.mem_cons]
    rintro (front | slash | later)
    · exact unbroken_pathText (plain_page plain plain_api) front
    · exact absurd slash (by decide)
    · exact unbroken later
  have fixed {parts : List Part} {own : Endpoint}
      (answered : (App.fixed parts own).Answers (pathText (apiBase base) ++ '/' :: rest) endpoint)
      (api : own.IsApi) : endpoint.IsApi ∨ endpoint = .spa .notFound := by
    obtain ⟨_, _, named⟩ := answered
    cases named
    exact .inl api
  rcases documented.only _ _ _ _ line handled with ⟨listed, _⟩ | ⟨route, listed, _, answered⟩
  · rw [segments_append some_ free] at listed
    exact absurd listed (undocumented_of_api (by simp [apiBase]))
  · simp only [App.routes, List.mem_append, List.mem_cons] at listed
    rcases listed with ((rfl | usage) | rfl | quota) | page
    · exact fixed answered trivial
    · simp only [App.usageRoutes, List.mem_cons, List.not_mem_nil, or_false] at usage
      rcases usage with rfl | rfl | rfl <;> exact fixed answered trivial
    · obtain ⟨params, fits, _⟩ := answered
      rw [App.fixed, below_eq plain (show "/usage-config.js".toList = '/' :: "usage-config.js".toList by rfl)] at fits
      refine absurd fits (not_fits_fixed some_ free (fun more same => ?_) rest params)
      rw [apiBase, List.append_assoc, List.append_cancel_left_eq] at same
      have first : ("usage-config.js".toList.splitOn '/').head? = some "api".toList := congrArg List.head? same
      exact absurd first (by decide)
    · obtain ⟨params, _, named⟩ := answered
      rw [App.quotaRoutes] at quota
      split at quota
      · simp only [List.mem_cons, List.not_mem_nil, or_false] at quota
        rcases quota with rfl | rfl | rfl
        · cases named
          exact .inl trivial
        · obtain ⟨p, n, _, rfl⟩ := account_eq_some named
          exact .inl trivial
        · obtain ⟨p, n, _, rfl⟩ := account_eq_some named
          exact .inl trivial
      · simp only [List.mem_cons, List.not_mem_nil, or_false] at quota
        rcases quota with rfl | rfl <;> cases named <;> exact .inl trivial
    · exact .inr (spaRoutes_api plain page answered)

end Api

section Page

private theorem segments_page (plain : PlainBase app.basePath base) (own : PlainSegment seg) :
    segments (pathText (base ++ [seg])) = base ++ [seg] :=
  segments_pathText (by simp) fun other listed => (plain_page plain own other listed).free

/-- A template of two parts and more has no single segment. -/
private theorem not_fits_two {chars : List Char} (part : Part) (parts : List Part) (params : List String) :
    ¬Fits (base.map .text ++ .text chars :: part :: parts) (base ++ [seg]) params := by
  rw [fits_append]
  rintro ⟨more, same, fits⟩
  rw [← List.append_cancel_left same, fits_text] at fits
  obtain ⟨rest, one, fits⟩ := fits
  rw [← (List.cons.inj one).2] at fits
  cases part with
  | text => cases fits
  | param => cases fits
  | rest => cases fits with
    | rest _ some_ => exact some_ rfl

/-- No route before that of the page has a single segment below the base path. -/
private theorem before_page (plain : PlainBase app.basePath base) (other : seg ≠ "usage-config.js".toList) {route : Route}
    (listed : route ∈ App.fixed (app.api "/health-check") .healthCheck :: app.usageRoutes ++
      App.fixed (app.below "/usage-config.js") .runtimeConfig :: app.quotaRoutes) (params : List String) :
    ¬Fits route.parts (base ++ [seg]) params := by
  have api {path : String} {rest : List Char} (slash : path.toList = '/' :: rest) (endpoint : Endpoint) :
      ¬Fits (App.fixed (app.api path) endpoint).parts (base ++ [seg]) params := by
    rw [App.fixed, api_eq plain slash, fits_fixed]
    rintro ⟨same, _⟩
    have second := (List.cons.inj (List.append_cancel_left same)).2
    exact List.splitOn_ne_nil '/' rest second.symm
  have quota {ps : List Part} {methods : Option (List Method)} {endpoint : List String → Option Endpoint} :
      ¬Fits (Route.mk methods (app.api "/quota" ++ ps) endpoint).parts (base ++ [seg]) params := by
    have text : app.api "/quota" ++ ps = base.map .text ++ .text "api".toList :: .text "quota".toList :: ps := by
      rw [api_eq plain (show "/quota".toList = '/' :: "quota".toList by rfl), List.map_append, List.append_assoc]
      rfl
    rw [text]
    exact not_fits_two _ ps params
  simp only [List.mem_append, List.mem_cons] at listed
  rcases listed with (rfl | usage) | rfl | quotas
  · exact api rfl _
  · simp only [App.usageRoutes, List.mem_cons, List.not_mem_nil, or_false] at usage
    rcases usage with rfl | rfl | rfl <;> exact api rfl _
  · rw [App.fixed, below_eq plain (show "/usage-config.js".toList = '/' :: "usage-config.js".toList by rfl), fits_fixed]
    rintro ⟨same, _⟩
    exact other (List.cons.inj (List.append_cancel_left same)).1
  · rw [App.quotaRoutes] at quotas
    split at quotas
    · simp only [List.mem_cons, List.not_mem_nil, or_false] at quotas
      rcases quotas with rfl | rfl | rfl
      · exact api rfl _
      · exact quota
      · exact quota
    · simp only [List.mem_cons, List.not_mem_nil, or_false] at quotas
      rcases quotas with rfl | rfl <;> exact quota

/-- A single segment below the base path is answered with the page. -/
private theorem page_handled {router : Router} (documented : router.Documented) (plain : PlainBase app.basePath base)
    (own : PlainSegment seg) (undocumented : base ++ [seg] ∉ documentationPaths) (other : seg ≠ "usage-config.js".toList)
    {isFile : String → Bool} (built : app.spa = some isFile) :
    router.handles app.routes .get (pathText (base ++ [seg])) = some (.spa (serveSpa isFile (String.ofList seg))) := by
  have path := segments_page plain own
  rw [App.routes, spaRoutes_eq plain built, ← List.append_assoc]
  refine documented.first _ _ _ _ _ _ (unbroken_pathText (plain_page plain own)) (by rwa [path])
    (fun route listed _ params => ?_) rfl ⟨[String.ofList seg], ?_, rfl⟩
  · rw [path]
    rw [List.mem_append, List.mem_cons] at listed
    rcases listed with before | rfl | redirect
    · exact before_page plain other before params
    · rw [List.map_append, List.append_assoc]
      exact not_fits_two .rest [] params
    · split at redirect
      · cases redirect
      · rw [List.mem_singleton.mp redirect, App.fixed, fits_fixed]
        rintro ⟨same, _⟩
        simp at same
  · rw [path, fits_append]
    refine ⟨[seg], rfl, fits_rest.mpr ⟨List.cons_ne_nil _ _, ?_⟩⟩
    rw [List.intercalate_singleton]

end Page

/-- A path below the API is answered by an endpoint of the API or not found. When the page is built, any other single segment
below the base path, but for the documentation and the runtime configuration, is answered with the page or a file of it. -/
theorem page_and_api_apart (router : Router) (documented : router.Documented) (app : App) (base : List (List Char))
    (plain : PlainBase app.basePath base) :
    (∀ method target rest endpoint, unquote target = pathText (base ++ ["api".toList]) ++ '/' :: rest → '\n' ∉ rest →
      app.request router method target = some endpoint → endpoint.IsApi ∨ endpoint = .spa .notFound) ∧
    ∀ isFile target seg, app.spa = some isFile → PlainSegment seg → unquote target = pathText (base ++ [seg]) →
      base ++ [seg] ∉ documentationPaths → seg ≠ "usage-config.js".toList → seg ≠ "api".toList →
      ∃ answer, app.request router .get target = some (.spa answer) ∧ answer ≠ .notFound := by
  constructor
  · intro method target rest endpoint path unbroken handled
    rw [App.request, documented.decodes, path] at handled
    exact isApi_of_handled documented plain unbroken handled
  · intro isFile target seg built own path undocumented config api
    refine ⟨_, ?_, serveSpa_segment isFile own api⟩
    rw [App.request, documented.decodes, path]
    exact page_handled documented plain own undocumented config built

/-- A server at the root, with its page built. -/
def rootApp : App where
  basePath := "/"
  quotaConfigured := false
  spa := some fun candidate => candidate = "favicon.svg"

theorem page_and_api_apart_root :
    (∃ answer, rootApp.request starlette .get "/limits".toList = some (.spa answer) ∧ answer ≠ .notFound) ∧
      ∀ endpoint, rootApp.request starlette .get "/api/limits".toList = some endpoint →
        endpoint.IsApi ∨ endpoint = .spa .notFound := by
  have plain : PlainBase rootApp.basePath [] := ⟨by decide, by simp⟩
  obtain ⟨api, page⟩ := page_and_api_apart starlette starlette_documented rootApp [] plain
  exact ⟨page _ _ "limits".toList rfl (by decide) (by decide) (by decide) (by decide) (by decide),
    fun endpoint => api .get _ "limits".toList endpoint (by decide) (by decide)⟩

end CliproxyUsage
