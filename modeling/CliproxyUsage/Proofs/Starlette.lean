import CliproxyUsage.Proofs.Routing

/-! # A router

Routes as Starlette tries them: the template of each is a regular expression, whose quirks at line breaks are
kept, and FastAPI adds the routes of its documentation before the others.
-/

namespace CliproxyUsage

open Python

/-- The parameters of a path. A parameter is not empty, and one that takes the rest spans no line break. -/
def matchParts : List Part → List (List Char) → Option (List String)
  | [], [] => some []
  | .text chars :: parts, seg :: segs => if seg = chars then matchParts parts segs else none
  | .param :: parts, seg :: segs =>
    if seg = [] then none else (matchParts parts segs).map fun params => String.ofList seg :: params
  | [.rest], seg :: segs =>
    let chars := ['/'].intercalate (seg :: segs)
    if '\n' ∈ chars then none else some [String.ofList chars]
  | _, _ => none

/-- The end of a route's pattern also matches before a last line break. -/
def matchPath (parts : List Part) (path : List Char) : Option (List String) :=
  (matchParts parts (segments path)).or
    (if path.getLast? = some '\n' then matchParts parts (segments path.dropLast) else none)

def Route.endpoint? (route : Route) (path : List Char) : Option Endpoint :=
  (matchPath route.parts path).bind route.endpoint

def documentationRoutes : List Route :=
  documentationPaths.map fun path => ⟨some [.get, .head], path.map .text, fun _ => some .documentation⟩

/-- The first route of the path and the method. -/
def starlette : Router where
  path := unquote
  handles routes method path :=
    ((documentationRoutes ++ routes).filter fun route => route.accepts method).findSome? fun route => route.endpoint? path

section Matching

variable {parts : List Part} {segs : List (List Char)} {params : List String} {path : List Char} {route : Route}
  {endpoint : Endpoint}

/-- Without line breaks a pattern is its template. -/
private theorem matchParts_iff (unbroken : '\n' ∉ ['/'].intercalate segs) :
    matchParts parts segs = some params ↔ Fits parts segs params := by
  induction parts generalizing segs params with
  | nil => cases segs <;> simp [matchParts, eq_comm]
  | cons part parts ih =>
    cases segs with
    | nil =>
      refine iff_of_false ?_ ?_
      · cases part <;> cases parts <;> simp [matchParts]
      · rintro ⟨⟩
        contradiction
    | cons seg segs =>
      have later : '\n' ∉ ['/'].intercalate segs := by
        intro broken
        cases segs with
        | nil => cases broken
        | cons next segs =>
          rw [List.intercalate_cons_cons] at unbroken
          exact unbroken (List.mem_append_right _ broken)
      cases part with
      | text chars =>
        rw [matchParts, fits_text]
        by_cases same : seg = chars
        · subst same
          rw [if_pos rfl, ih later]
          simp
        · rw [if_neg same]
          simp [same]
      | param =>
        rw [matchParts, fits_param]
        by_cases empty : seg = []
        · subst empty
          simp
        · rw [if_neg empty, Option.map_eq_some_iff]
          constructor
          · rintro ⟨values, matched, rfl⟩
            exact ⟨seg, segs, values, rfl, empty, rfl, (ih later).mp matched⟩
          · rintro ⟨_, _, values, same, _, rfl, fits⟩
            obtain ⟨rfl, rfl⟩ := List.cons.inj same
            exact ⟨values, (ih later).mpr fits, rfl⟩
      | rest =>
        cases parts with
        | nil =>
          rw [matchParts, if_neg unbroken, fits_rest]
          simp [eq_comm]
        | cons => exact iff_of_false (by simp [matchParts]) nofun

private theorem endpoint?_iff (unbroken : '\n' ∉ path) :
    route.endpoint? path = some endpoint ↔ route.Answers path endpoint := by
  have last : path.getLast? ≠ some '\n' := fun broken => unbroken (List.mem_of_getLast? broken)
  have parts : ['/'].intercalate (segments path) = path.drop 1 := List.intercalate_splitOn '/'
  have inside : '\n' ∉ ['/'].intercalate (segments path) := by
    rw [parts]
    exact fun broken => unbroken (List.mem_of_mem_drop broken)
  rw [Route.endpoint?, matchPath, if_neg last, Option.or_none, Option.bind_eq_some_iff, Route.Answers]
  simp only [matchParts_iff inside]

end Matching

/-- The routes of the documentation have its paths. -/
private theorem documentation_answers {route : Route} (listed : route ∈ documentationRoutes) {path : List Char}
    {endpoint : Endpoint} (answered : route.Answers path endpoint) :
    segments path ∈ documentationPaths ∧ endpoint = .documentation := by
  obtain ⟨own, known, rfl⟩ := List.mem_map.mp listed
  obtain ⟨params, fits, named⟩ := answered
  cases named
  rw [(fits_fixed.mp fits).1]
  exact ⟨known, rfl⟩

theorem starlette_documented : starlette.Documented := by
  constructor
  case decodes => exact fun _ => rfl
  case first =>
    intro front rest route method path endpoint unbroken undocumented earlier accepted answered
    have skipped (other : Route) (listed : other ∈ documentationRoutes ++ front) (accepts : other.accepts method = true) :
        other.endpoint? path = none := by
      rw [Option.eq_none_iff_forall_ne_some]
      intro endpoint' handled
      have fits := (endpoint?_iff unbroken).mp handled
      rcases List.mem_append.mp listed with documented | before
      · exact undocumented (documentation_answers documented fits).1
      · obtain ⟨params, fits, _⟩ := fits
        exact earlier other before accepts params fits
    have none_ : ((documentationRoutes ++ front).filter fun route => route.accepts method).findSome?
        (fun route => route.endpoint? path) = none := by
      rw [List.findSome?_eq_none_iff]
      intro other kept
      obtain ⟨listed, accepts⟩ := List.mem_filter.mp kept
      exact skipped other listed accepts
    simp only [starlette]
    rw [← List.append_assoc, List.filter_append, List.findSome?_append, none_, Option.none_or, List.filter_cons,
      if_pos accepted, List.findSome?_cons, (endpoint?_iff unbroken).mpr answered]
  case only =>
    intro routes method path endpoint unbroken handled
    obtain ⟨route, kept, answered⟩ := List.exists_of_findSome?_eq_some handled
    obtain ⟨listed, accepted⟩ := List.mem_filter.mp kept
    have answers := (endpoint?_iff unbroken).mp answered
    rcases List.mem_append.mp listed with documented | own
    · exact .inl (documentation_answers documented answers)
    · exact .inr ⟨route, own, accepted, answers⟩

end CliproxyUsage
