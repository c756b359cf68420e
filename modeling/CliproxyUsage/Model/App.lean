import CliproxyUsage.Python.QueryString
import CliproxyUsage.Python.Text

/-! # Routes of the server

The application of `create_app`: its routes in the order in which they are added, and the answers of the
single-page fallback. A path is a list of characters, after its escapes are decoded; which route a request
goes to is decided by the router of the web framework.
-/

namespace CliproxyUsage

open Python

/-- The base path of a configuration, or why it is rejected. -/
def normalizeBasePath (value : String) : Except String String :=
  let value := strip value
  if value = "" ∨ value = "/" then .ok "/"
  else if value.toList.head? ≠ some '/' then .error "base path must start with /"
  else if ['/', '/'] <+: value.toList then .error "base path must not start with //"
  else if '?' ∈ value.toList ∨ '#' ∈ value.toList then .error "base path must not include query or fragment"
  else .ok (String.ofList (value.toList.rdropWhile fun c => c = '/'))

def prefixed (basePath path : String) : String := if basePath = "/" then path else basePath ++ path

/-- What `create_app` makes its routes from. The page is served only when it has been built, and then `isFile` tells the
names that resolve to a file of its directory. -/
structure App where
  basePath : String
  quotaConfigured : Bool
  spa : Option (String → Bool)

inductive Method where
  | get
  | head
  | post
  | other
deriving DecidableEq, Repr

inductive SpaAnswer where
  | notFound
  | file (candidate : String)
  | shell
deriving DecidableEq, Repr

inductive Endpoint where
  | documentation
  | healthCheck
  | summary
  | breakdown
  | options
  | runtimeConfig
  | accounts
  | quota (provider authName : String)
  | reset (provider authName : String)
  | quotaDisabled
  | assets (path : String)
  | spaRedirect
  | spa (answer : SpaAnswer)
deriving DecidableEq, Repr

/-- `Path(path).name`. -/
def pathName (path : String) : String := ((split '/' path).filter fun part => part ≠ "" ∧ part ≠ ".").getLastD ""

/-- A file of the page, by its path or by its last part, and else the shell. -/
def serveSpa (isFile : String → Bool) (fullPath : String) : SpaAnswer :=
  if fullPath = "api" ∨ "api/".toList <+: fullPath.toList then .notFound
  else
    match [fullPath, pathName fullPath].find? fun c => c ≠ "" ∧ c ≠ "index.html" ∧ isFile c with
    | some candidate => .file candidate
    | none => .shell

/-- A part of a route's path between two slashes: a text, a parameter, or a parameter that takes the rest of the path. -/
inductive Part where
  | text (chars : List Char)
  | param
  | rest
deriving DecidableEq, Repr

/-- No methods means any. -/
structure Route where
  methods : Option (List Method)
  parts : List Part
  endpoint : List String → Option Endpoint

def segments (path : List Char) : List (List Char) := (path.drop 1).splitOn '/'

/-- The segments of a path that a template describes, and the values of its parameters. A parameter is not empty. -/
inductive Fits : List Part → List (List Char) → List String → Prop
  | nil : Fits [] [] []
  | text {parts segs params} (chars : List Char) (fits : Fits parts segs params) :
      Fits (.text chars :: parts) (chars :: segs) params
  | param {parts segs params} (seg : List Char) (some_ : seg ≠ []) (fits : Fits parts segs params) :
      Fits (.param :: parts) (seg :: segs) (String.ofList seg :: params)
  | rest (segs : List (List Char)) (some_ : segs ≠ []) : Fits [.rest] segs [String.ofList (['/'].intercalate segs)]

def Route.accepts (route : Route) (method : Method) : Bool := route.methods.all fun methods => method ∈ methods

/-- The endpoint of a route for a path, whatever the method. -/
def Route.Answers (route : Route) (path : List Char) (endpoint : Endpoint) : Prop :=
  ∃ params, Fits route.parts (segments path) params ∧ route.endpoint params = some endpoint

/-- The paths of the interactive documentation, which the framework adds. -/
def documentationPaths : List (List (List Char)) :=
  [["openapi.json"], ["docs"], ["docs", "oauth2-redirect"], ["redoc"]].map fun path => path.map String.toList

/-- What the web framework supplies. -/
structure Router where
  /-- The path of the target of a request. -/
  path : List Char → List Char
  /-- The endpoint that handles a request; none when it is redirected, not found or of a method that is not allowed. -/
  handles : List Route → Method → List Char → Option Endpoint

/-- The documented behaviour of a router on paths without line breaks: routes are tried in their order, a route is matched by
its template and its methods, and the documentation has paths of its own. -/
structure Router.Documented (router : Router) : Prop where
  decodes : ∀ target, router.path target = unquote target
  first : ∀ (front rest : List Route) (route : Route) (method : Method) (path : List Char) (endpoint : Endpoint),
    '\n' ∉ path → segments path ∉ documentationPaths →
    (∀ other ∈ front, other.accepts method = true → ∀ params, ¬Fits other.parts (segments path) params) →
    route.accepts method = true → route.Answers path endpoint →
    router.handles (front ++ route :: rest) method path = some endpoint
  only : ∀ (routes : List Route) (method : Method) (path : List Char) (endpoint : Endpoint),
    '\n' ∉ path → router.handles routes method path = some endpoint →
    (segments path ∈ documentationPaths ∧ endpoint = .documentation) ∨
      ∃ route ∈ routes, route.accepts method = true ∧ route.Answers path endpoint

namespace App

variable (app : App)

/-- The parts of a path without parameters below the base path. -/
def below (path : String) : List Part := (segments (prefixed app.basePath path).toList).map .text

def api (path : String) : List Part := app.below ("/api" ++ path)

/-- A route without parameters. -/
def fixed (parts : List Part) (endpoint : Endpoint) : Route := ⟨some [.get], parts, fun _ => some endpoint⟩

def usageRoutes : List Route :=
  [fixed (app.api "/usage/summary") .summary, fixed (app.api "/usage/breakdown") .breakdown,
    fixed (app.api "/usage/options") .options]

/-- The endpoint of one account. -/
def account (endpoint : String → String → Endpoint) : List String → Option Endpoint
  | [provider, authName] => some (endpoint provider authName)
  | _ => none

def quotaRoutes : List Route :=
  if app.quotaConfigured then
    [fixed (app.api "/quota/accounts") .accounts,
      ⟨some [.get], app.api "/quota" ++ [.param, .param], account .quota⟩,
      ⟨some [.post], app.api "/quota" ++ [.param, .param, .text "reset".toList], account .reset⟩]
  else
    [⟨some [.get], app.api "/quota" ++ [.rest], fun _ => some .quotaDisabled⟩,
      ⟨some [.post], app.api "/quota" ++ [.rest], fun _ => some .quotaDisabled⟩]

def spaRoutes : List Route :=
  match app.spa with
  | none => []
  | some isFile =>
    let page (parts : List Part) : Route :=
      ⟨some [.get], parts, fun params => params.head?.map fun path => .spa (serveSpa isFile path)⟩
    ⟨none, app.below "/assets" ++ [.rest], fun params => params.head?.map .assets⟩ ::
      if app.basePath = "/" then [page [.rest]]
      else
        [fixed ((segments app.basePath.toList).map .text) .spaRedirect,
          page ((segments app.basePath.toList).map .text ++ [.rest])]

def routes : List Route :=
  fixed (app.api "/health-check") .healthCheck :: app.usageRoutes ++
    fixed (app.below "/usage-config.js") .runtimeConfig :: app.quotaRoutes ++ app.spaRoutes

/-- The endpoint that handles a request. -/
def request (router : Router) (method : Method) (target : List Char) : Option Endpoint :=
  router.handles app.routes method (router.path target)

end App

end CliproxyUsage
