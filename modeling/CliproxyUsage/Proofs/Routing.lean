import CliproxyUsage.JavaScript.Url
import CliproxyUsage.Model.App

/-! # Matching of routes

Which templates describe a path whose segments neither the browser nor the server rewrites: a base path, the
text of a route below it, and its parameters.
-/

namespace CliproxyUsage

open Python JavaScript

/-- Text of a path that neither side rewrites. -/
structure PlainSegment (seg : List Char) : Prop where
  some_ : seg ≠ []
  safe : ∀ c ∈ seg, IsSafe c ∧ c ≠ '%'
  undotted : seg ∉ singleDots ∧ seg ∉ doubleDots

instance (seg : List Char) : Decidable (PlainSegment seg) :=
  let safe : Decidable (∀ c ∈ seg, IsSafe c ∧ c ≠ '%') := List.decidableBAll _ seg
  decidable_of_iff (seg ≠ [] ∧ (∀ c ∈ seg, IsSafe c ∧ c ≠ '%') ∧ ¬singleDots.contains seg ∧ ¬doubleDots.contains seg) (by
    rw [List.contains_iff_mem, List.contains_iff_mem]
    exact ⟨fun ⟨some_, safe, undotted⟩ => ⟨some_, safe, undotted⟩, fun plain => ⟨plain.some_, plain.safe, plain.undotted⟩⟩)

/-- A base path of such segments; without any it is the root. -/
structure PlainBase (basePath : String) (base : List (List Char)) : Prop where
  text : basePath.toList = pathText base
  plain : ∀ seg ∈ base, PlainSegment seg

section Paths

variable {front : List (List Char)} {seg : List Char}

/-- One more segment at the end of a path. -/
theorem pathText_concat (some_ : front ≠ []) (seg : List Char) :
    pathText (front ++ [seg]) = pathText front ++ '/' :: seg := by
  rw [pathText, pathText, List.cons_append]
  refine congrArg ('/' :: ·) ?_
  induction front with
  | nil => exact absurd rfl some_
  | cons first rest ih =>
    cases rest with
    | nil => simp [List.intercalate_cons_cons]
    | cons next rest =>
      rw [List.cons_append, List.cons_append, List.intercalate_cons_cons, List.intercalate_cons_cons, ← List.cons_append,
        ih (List.cons_ne_nil _ _)]
      simp only [List.append_assoc]

/-- More segments at the end of a path. -/
theorem pathText_append (some_ : front ≠ []) (more : List (List Char)) :
    pathText (front ++ more) = pathText front ++ more.flatMap fun seg => '/' :: seg := by
  induction more generalizing front with
  | nil => simp
  | cons seg more ih =>
    have next := @ih (front ++ [seg]) (by simp)
    rw [List.append_assoc, List.singleton_append, pathText_concat some_] at next
    rw [next, List.flatMap_cons, List.append_assoc, List.cons_append]

theorem segments_pathText (some_ : front ≠ []) (free : ∀ seg ∈ front, '/' ∉ seg) :
    segments (pathText front) = front := List.splitOn_intercalate '/' free some_

/-- What stands after a path and a slash has its own segments. -/
theorem segments_append (some_ : front ≠ []) (free : ∀ seg ∈ front, '/' ∉ seg) (rest : List Char) :
    segments (pathText front ++ '/' :: rest) = front ++ rest.splitOn '/' := by
  rw [segments, pathText, List.cons_append, List.drop_one, List.tail_cons, List.splitOn_append_cons_self,
    List.splitOn_intercalate '/' free some_]

theorem PlainSegment.free (plain : PlainSegment seg) : '/' ∉ seg := fun slash => (plain.safe _ slash).1.2.1 rfl

theorem plain_api : PlainSegment "api".toList := by decide

end Paths

section Matching

variable {front segs : List (List Char)} {parts : List Part} {params : List String}

@[simp] theorem fits_nil : Fits [] segs params ↔ segs = [] ∧ params = [] := by
  constructor
  · rintro ⟨⟩
    exact ⟨rfl, rfl⟩
  · rintro ⟨rfl, rfl⟩
    exact .nil

@[simp] theorem fits_text {chars : List Char} :
    Fits (.text chars :: parts) segs params ↔ ∃ more, segs = chars :: more ∧ Fits parts more params := by
  constructor
  · rintro ⟨⟩
    exact ⟨_, rfl, ‹_›⟩
  · rintro ⟨more, rfl, fits⟩
    exact .text chars fits

@[simp] theorem fits_param :
    Fits (.param :: parts) segs params ↔
      ∃ seg more values, segs = seg :: more ∧ seg ≠ [] ∧ params = String.ofList seg :: values ∧ Fits parts more values := by
  constructor
  · rintro ⟨⟩
    exact ⟨_, _, _, rfl, ‹_›, rfl, ‹_›⟩
  · rintro ⟨seg, more, values, rfl, some_, rfl, fits⟩
    exact .param seg some_ fits

@[simp] theorem fits_rest :
    Fits [.rest] segs params ↔ segs ≠ [] ∧ params = [String.ofList (['/'].intercalate segs)] := by
  constructor
  · rintro ⟨⟩
    exact ⟨‹_›, rfl⟩
  · rintro ⟨some_, rfl⟩
    exact .rest segs some_

/-- The text before the parameters. -/
theorem fits_append (front : List (List Char)) :
    Fits (front.map .text ++ parts) segs params ↔ ∃ more, segs = front ++ more ∧ Fits parts more params := by
  induction front generalizing segs with
  | nil => simp
  | cons seg front ih => simp [ih]

/-- A template without parameters has one path. -/
theorem fits_fixed : Fits (front.map .text) segs params ↔ segs = front ∧ params = [] := by
  have whole := @fits_append segs [] params front
  rw [List.append_nil] at whole
  simp [whole]

/-- Text of one segment has no slash. -/
theorem splitOn_eq_singleton {chars seg : List Char} (one : chars.splitOn '/' = [seg]) :
    '/' ∉ chars ∧ chars = seg := by
  constructor
  · intro slash
    obtain ⟨front, rest, rfl⟩ := List.append_of_mem slash
    have parts := congrArg List.length one
    have first := List.length_pos_of_ne_nil (List.splitOn_ne_nil '/' front)
    have second := List.length_pos_of_ne_nil (List.splitOn_ne_nil '/' rest)
    rw [List.splitOn_append_cons_self, List.length_append, List.length_singleton] at parts
    omega
  · have whole : ['/'].intercalate (chars.splitOn '/') = chars := List.intercalate_splitOn '/'
    rw [one, List.intercalate_singleton] at whole
    exact whole.symm

/-- A last parameter is a text without slashes. -/
theorem fits_name {name : List Char} :
    Fits [.param] (name.splitOn '/') params ↔ params = [String.ofList name] ∧ name ≠ [] ∧ '/' ∉ name := by
  simp only [fits_param, fits_nil]
  constructor
  · rintro ⟨seg, _, _, one, some_, rfl, rfl, rfl⟩
    obtain ⟨free, rfl⟩ := splitOn_eq_singleton one
    exact ⟨rfl, some_, free⟩
  · rintro ⟨rfl, some_, free⟩
    exact ⟨name, [], [], List.splitOn_eq_singleton free, some_, rfl, rfl, rfl⟩

/-- A parameter before others is the text up to the next slash. -/
theorem fits_provider {provider : List Char} (some_ : provider ≠ []) (free : '/' ∉ provider) (rest : List Char) :
    Fits (.param :: parts) ((provider ++ '/' :: rest).splitOn '/') params ↔
      ∃ values, params = String.ofList provider :: values ∧ Fits parts (rest.splitOn '/') values := by
  rw [List.splitOn_append_cons_self_of_not_mem free, fits_param]
  constructor
  · rintro ⟨seg, more, values, same, _, rfl, fits⟩
    obtain ⟨rfl, rfl⟩ := List.cons.inj same
    exact ⟨values, rfl, fits⟩
  · rintro ⟨values, rfl, fits⟩
    exact ⟨_, _, values, rfl, some_, rfl, fits⟩

end Matching

section Routes

variable {app : App} {base front : List (List Char)}

theorem ne_root {first : List Char} {rest : List (List Char)} (plain : PlainBase app.basePath (first :: rest)) :
    app.basePath ≠ "/" := by
  rintro root
  obtain ⟨c, seg, rfl⟩ := List.exists_cons_of_ne_nil (plain.plain first (List.mem_cons_self ..)).some_
  have text := congrArg List.length plain.text
  cases rest <;> simp [root, pathText, List.intercalate_cons_cons] at text

/-- The segments of a path of the server. -/
theorem below_eq (plain : PlainBase app.basePath base) {path : String} {rest : List Char}
    (slash : path.toList = '/' :: rest) : app.below path = (base ++ rest.splitOn '/').map .text := by
  rw [App.below, prefixed]
  have free : ∀ seg ∈ base, '/' ∉ seg := fun seg listed => (plain.plain seg listed).free
  cases base with
  | nil =>
    have root : app.basePath = "/" := by
      rw [← String.toList_inj, plain.text]
      rfl
    rw [if_pos root, slash]
    rfl
  | cons first more =>
    rw [if_neg (ne_root plain), String.toList_append, plain.text, slash, segments_append (List.cons_ne_nil _ _) free]

theorem api_eq (plain : PlainBase app.basePath base) {path : String} {rest : List Char}
    (slash : path.toList = '/' :: rest) : app.api path = (base ++ "api".toList :: rest.splitOn '/').map .text := by
  have text : ("/api" ++ path).toList = '/' :: ("api".toList ++ '/' :: rest) := by
    rw [String.toList_append, slash]
    rfl
  rw [App.api, below_eq plain text, List.splitOn_append_cons_self]
  rfl

/-- A path without parameters is not below another one. -/
theorem not_fits_fixed {other : List (List Char)} (some_ : front ≠ []) (free : ∀ seg ∈ front, '/' ∉ seg)
    (apart : ∀ more, other ≠ front ++ more) (rest : List Char) (params : List String) :
    ¬Fits (other.map .text) (segments (pathText front ++ '/' :: rest)) params := by
  rw [segments_append some_ free, fits_fixed]
  exact fun fits => apart _ fits.1.symm

/-- The documentation is not below the API. -/
theorem undocumented_of_api (listed : "api".toList ∈ front) : front ∉ documentationPaths := by
  intro documented
  simp only [documentationPaths, List.map_cons, List.map_nil, List.mem_cons, List.not_mem_nil, or_false] at documented
  rcases documented with rfl | rfl | rfl | rfl <;> exact absurd listed (by decide)

/-- A path of plain segments has no line break. -/
theorem unbroken_pathText (plain : ∀ seg ∈ front, PlainSegment seg) : '\n' ∉ pathText front := by
  intro broken
  rcases mem_pathText broken with slash | ⟨seg, listed, inside⟩
  · exact absurd slash (by decide)
  · exact absurd ((plain seg listed).safe _ inside).1 (by decide)

/-- The page and its files are no endpoint of an account. -/
theorem page_answers {route : Route} (listed : route ∈ app.spaRoutes) {path : List Char} {endpoint : Endpoint}
    (answered : route.Answers path endpoint) :
    (∃ asset, endpoint = .assets asset) ∨ endpoint = .spaRedirect ∨ ∃ answer, endpoint = .spa answer := by
  obtain ⟨params, _, named⟩ := answered
  rw [App.spaRoutes] at listed
  split at listed
  · cases listed
  · rcases List.mem_cons.mp listed with rfl | page
    · obtain ⟨asset, _, rfl⟩ := Option.map_eq_some_iff.mp named
      exact .inl ⟨asset, rfl⟩
    · split at page
      · rw [List.mem_singleton.mp page] at named
        obtain ⟨path, _, rfl⟩ := Option.map_eq_some_iff.mp named
        exact .inr (.inr ⟨_, rfl⟩)
      · rcases List.mem_cons.mp page with rfl | nested
        · cases named
          exact .inr (.inl rfl)
        · rw [List.mem_singleton.mp nested] at named
          obtain ⟨path, _, rfl⟩ := Option.map_eq_some_iff.mp named
          exact .inr (.inr ⟨_, rfl⟩)

/-- The parameters of an account's endpoint. -/
theorem account_eq_some {endpoint : String → String → Endpoint} {params : List String} {e : Endpoint}
    (named : App.account endpoint params = some e) : ∃ p n, params = [p, n] ∧ e = endpoint p n := by
  match params, named with
  | [p, n], named => exact ⟨p, n, rfl, (Option.some.inj named).symm⟩

end Routes

end CliproxyUsage
