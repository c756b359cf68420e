import CliproxyUsage.Frontend.Browser
import CliproxyUsage.Machine.Core.Run
import CliproxyUsage.Soundness.ViewRoundTrip

/-! # Views follow their URLs

Whatever the storage holds, a tab that has rendered its location and run the effect shows a valid view, and
the URL says that view.
-/

namespace CliproxyUsage.Frontend

open JavaScript Machine

section Statement

variable {σ : Type}

/-- A tab shows the location that it has, and no effect is left to run. -/
structure Tab.Settled (tab : Tab) (view : View) : Prop where
  shown : tab.shown = some view
  current : view.location = tab.location
  ran : tab.pending = false

instance (tab : Tab) (view : View) : Decidable (tab.Settled view) :=
  decidable_of_iff (tab.shown = some view ∧ view.location = tab.location ∧ tab.pending = false)
    ⟨fun ⟨shown, current, ran⟩ => ⟨shown, current, ran⟩, fun settled => ⟨settled.shown, settled.current, settled.ran⟩⟩

/-- A link is followed, and the history gone through, only where the location is on display. -/
def FollowsShown (browser : Browser σ) : BrowserEvent σ → Prop
  | .navigate id _ => ∀ tab ∈ browser.tabs id, ∀ view ∈ tab.shown, view.location = tab.location
  | _ => True

instance (browser : Browser σ) : ∀ e, Decidable (FollowsShown browser e)
  | .navigate id _ => inferInstanceAs (Decidable (∀ tab ∈ browser.tabs id, ∀ view ∈ tab.shown, view.location = tab.location))
  | .visit .. | .render _ | .effect _ | .click .. | .others _ => isTrue trivial

/-- The tab that an event is about. -/
def BrowserEvent.about : BrowserEvent σ → Option ℕ
  | .visit id _ | .navigate id _ | .render id | .effect id | .click id _ => some id
  | .others _ => none

/-- The location that the router makes of new parameters reads as they do. -/
def ReadsBack (setParams : String → String) : Prop :=
  ∀ init, UrlSearchParams.ofString (setParams init) = UrlSearchParams.ofString init

end Statement

section Locations

variable {setParams : String → String}

theorem searchOf_setParams (router : ReadsBack setParams) (s : ViewState) :
    searchOf (setParams (serializeViewState s)) = serializeViewState s := by
  rw [searchOf, router, serializeViewState, UrlSearchParams.ofString_toString]

@[simp] theorem parseViewState_searchOf (clock : LocalClock) (location : String) :
    parseViewState clock (searchOf location) = parseViewState clock location := by
  rw [parseViewState, searchOf, UrlSearchParams.ofString_toString, parseViewState]

theorem parseViewState_setParams (router : ReadsBack setParams) {clock : LocalClock} {s : ViewState}
    (valid : s.Valid clock) : parseViewState clock (setParams (serializeViewState s)) = s := by
  rw [← parseViewState_searchOf, searchOf_setParams router, parseViewState_serializeViewState valid]

end Locations

section Loading

variable {σ : Type} (clock : LocalClock) (storage : Option (Storage σ)) (items : σ)

theorem valid_parseViewState (search : String) : (parseViewState clock search).Valid clock :=
  exists_parseViewState_iff.mp ⟨search, rfl⟩

private theorem valid_default : defaultViewState.Valid clock where
  range := nofun
  selection dim := by cases dim <;> exact ⟨List.nodup_nil, List.not_mem_nil⟩
  drawer := nofun

/-- Nothing that is stored makes the loaded state invalid. -/
theorem valid_loadViewState (search : String) : (loadViewState clock search storage items).Valid clock := by
  simp only [loadViewState]
  split_ifs
  · exact valid_parseViewState clock _
  · split
    · split_ifs
      · exact valid_parseViewState clock _
      · exact valid_default clock
    · exact valid_default clock
  · exact valid_parseViewState clock _
  · split
    · split_ifs
      · exact valid_parseViewState clock _
      · exact valid_default clock
    · exact valid_default clock

theorem loadViewState_searchOf {location : String} (asked : searchOf location ≠ "") :
    loadViewState clock (searchOf location) storage items = parseViewState clock location := by
  have plain : (searchOf location).toList.head? ≠ some '?' := UrlSearchParams.head_toString _
  simp only [loadViewState]
  rw [if_neg plain, if_pos asked, parseViewState_searchOf]

variable {storage items}

/-- A saved state is loaded for an empty query, but for its drawer. -/
theorem loadViewState_saved {storage : Storage σ} (works : storage.Works) {s : ViewState} (valid : s.Valid clock) :
    loadViewState clock "" (some storage) (saveViewState s (some storage) items) = { s with drawer := none } := by
  obtain ⟨stored, saved, read⟩ := works items viewStorageKey (serializeViewState { s with drawer := none })
  have item : readItem (some storage) (saveViewState s (some storage) items) viewStorageKey =
      some (serializeViewState { s with drawer := none }) := by
    simp only [readItem, saveViewState, saved, read]
  have blank : (if "".toList.head? = some '?' then String.ofList "".toList.tail else "") = "" := rfl
  simp only [loadViewState, blank, item]
  rw [if_neg (not_not.mpr rfl), if_pos (serializeViewState_ne_empty _)]
  exact parseViewState_serializeViewState valid.closed

end Loading

section Steps

variable {σ : Type} {setParams : String → String} {clock : LocalClock} {storage : Option (Storage σ)}
  {items saved : σ} {tab next : Tab} {browser after : Browser σ} {id : ℕ} {e : BrowserEvent σ}

theorem render_eq_some (rendered : tab.render clock storage items = some next) :
    tab.pending = false ∧ ∃ state, next =
      { tab with
        shown := some { location := tab.location, search := searchOf tab.location, state }
        pending := tab.shown.map View.location ≠ some tab.location } ∧
      (state = loadViewState clock (searchOf tab.location) storage items ∨
        ∃ view, tab.shown = some view ∧ view.search = searchOf tab.location ∧ state = view.state) := by
  rw [Tab.render] at rendered
  split at rendered
  · cases rendered
  · next idle =>
    refine ⟨by simpa using idle, _, (Option.some.inj rendered).symm, ?_⟩
    cases shown : tab.shown with
    | none => exact .inl rfl
    | some view =>
      by_cases same : view.search = searchOf tab.location
      · exact .inr ⟨view, rfl, same, if_pos same⟩
      · exact .inl (if_neg same)

theorem render_visited (clock : LocalClock) (storage : Option (Storage σ)) (items : σ) (location : String) :
    ∃ view : View, ({ location } : Tab).render clock storage items = some { location, shown := some view, pending := true } ∧
      view.state = loadViewState clock (searchOf location) storage items := by
  refine ⟨{ location, search := searchOf location, state := loadViewState clock (searchOf location) storage items }, ?_, ?_⟩
  · simp [Tab.render]
  · dsimp only

theorem effect_eq_some (ran : tab.effect setParams storage items = some (next, saved)) :
    ∃ view, tab.shown = some view ∧ tab.pending = true ∧ saved = saveViewState view.state storage items ∧ next =
      { tab with
        location := if view.search = "" then setParams (serializeViewState view.state) else tab.location
        pending := false } := by
  rw [Tab.effect] at ran
  split at ran
  · cases ran
  · next view shown =>
    split at ran
    · next pending =>
      cases ran
      exact ⟨view, shown, pending, rfl, rfl⟩
    · cases ran

theorem click_eq_some {control : Control} (clicked : tab.click setParams clock control = some next) :
    ∃ view state, tab.shown = some view ∧ control.patch clock view.state = some state ∧
      next = { tab with location := setParams (serializeViewState state) } := by
  obtain ⟨view, shown, asked⟩ := Option.bind_eq_some_iff.mp clicked
  obtain ⟨state, patched, rfl⟩ := Option.map_eq_some_iff.mp asked
  exact ⟨view, state, shown, patched, rfl⟩

/-- What an event makes of the tab that it is about. -/
inductive Moves (setParams : String → String) (clock : LocalClock) (storage : Option (Storage σ)) (browser : Browser σ)
    (id : ℕ) : BrowserEvent σ → Tab → Prop
  | visit (location : String) : Moves setParams clock storage browser id (.visit id location) { location }
  | navigate {tab : Tab} (here : browser.tabs id = some tab) (location : String) :
      Moves setParams clock storage browser id (.navigate id location) { tab with location }
  | render {tab next : Tab} (here : browser.tabs id = some tab)
      (rendered : tab.render clock storage browser.items = some next) :
      Moves setParams clock storage browser id (.render id) next
  | effect {tab next : Tab} {saved : σ} (here : browser.tabs id = some tab)
      (ran : tab.effect setParams storage browser.items = some (next, saved)) :
      Moves setParams clock storage browser id (.effect id) next
  | click {tab next : Tab} {control : Control} (here : browser.tabs id = some tab)
      (clicked : tab.click setParams clock control = some next) :
      Moves setParams clock storage browser id (.click id control) next

/-- A step leaves a tab alone, unless it is about that tab. -/
theorem step_tabs (stepped : browser.step setParams clock storage e = some after) (id : ℕ) :
    (after.tabs id = browser.tabs id ∧ e.about ≠ some id) ∨
      ∃ tab, after.tabs id = some tab ∧ Moves setParams clock storage browser id e tab := by
  have put {other : ℕ} {moved : Tab} (moves : Moves setParams clock storage browser other e moved) :
      (Function.update browser.tabs other (some moved) id = browser.tabs id ∧ e.about ≠ some id) ∨
        ∃ tab, Function.update browser.tabs other (some moved) id = some tab ∧
          Moves setParams clock storage browser id e tab := by
    rw [Function.update_apply]
    split
    · next own => exact .inr ⟨moved, rfl, own ▸ moves⟩
    · next apart =>
      refine .inl ⟨rfl, fun own => apart ?_⟩
      cases moves <;> exact (Option.some.inj own).symm
  cases e with
  | visit other location =>
    cases stepped
    exact put (.visit location)
  | navigate other location =>
    obtain ⟨old, here, rfl⟩ := Option.map_eq_some_iff.mp stepped
    exact put (.navigate here location)
  | render other =>
    obtain ⟨old, here, rest⟩ := Option.bind_eq_some_iff.mp stepped
    obtain ⟨moved, rendered, rfl⟩ := Option.map_eq_some_iff.mp rest
    exact put (.render here rendered)
  | effect other =>
    obtain ⟨old, here, rest⟩ := Option.bind_eq_some_iff.mp stepped
    obtain ⟨⟨moved, saved⟩, ran, rfl⟩ := Option.map_eq_some_iff.mp rest
    exact put (.effect here ran)
  | click other control =>
    obtain ⟨old, here, rest⟩ := Option.bind_eq_some_iff.mp stepped
    obtain ⟨moved, clicked, rfl⟩ := Option.map_eq_some_iff.mp rest
    exact put (.click here clicked)
  | others items =>
    cases stepped
    exact .inl ⟨rfl, nofun⟩

/-- An invariant of the tabs that every move keeps. -/
private theorem tabs_step {P : Tab → Prop} (held : ∀ id tab, browser.tabs id = some tab → P tab)
    (moves : ∀ id tab, Moves setParams clock storage browser id e tab → P tab)
    (stepped : browser.step setParams clock storage e = some after) : ∀ id tab, after.tabs id = some tab → P tab := by
  intro id tab there
  rcases step_tabs stepped id with ⟨kept, _⟩ | ⟨moved, here, move⟩
  · exact held id tab (kept ▸ there)
  · rw [Option.some.inj (there.symm.trans here)]
    exact moves id moved move

end Steps

section Invariant

variable {σ : Type} {setParams : String → String} {clock : LocalClock} {storage : Option (Storage σ)} {items : σ}
  {browser : Browser σ} {es : List (BrowserEvent σ)} {id : ℕ} {e : BrowserEvent σ} {tab : Tab}

/-- A render shows a valid state, which is that of its query when there is one. -/
structure View.Sound (clock : LocalClock) (view : View) : Prop where
  search : view.search = searchOf view.location
  valid : view.state.Valid clock
  reads : view.search ≠ "" → view.state = parseViewState clock view.location

def Tab.Sound (clock : LocalClock) (tab : Tab) : Prop := ∀ view, tab.shown = some view → view.Sound clock

/-- A tab with an empty query on display has an effect to run, or a location to render. -/
def Tab.Filled (tab : Tab) : Prop :=
  ∀ view, tab.shown = some view → tab.pending = false → view.search = "" → view.location ≠ tab.location

private theorem sound_render {next : Tab} (sound : tab.Sound clock)
    (rendered : tab.render clock storage items = some next) : next.Sound clock := by
  obtain ⟨_, state, rfl, origin⟩ := render_eq_some rendered
  rintro view ⟨⟩
  rcases origin with loaded | ⟨earlier, shown, same, kept⟩
  · refine ⟨rfl, ?_, ?_⟩ <;> dsimp only <;> rw [loaded]
    · exact valid_loadViewState clock storage items _
    · exact loadViewState_searchOf clock storage items
  · obtain ⟨search, valid, reads⟩ := sound earlier shown
    refine ⟨rfl, ?_, ?_⟩ <;> dsimp only <;> rw [kept]
    · exact valid
    · intro asked
      rw [reads (same ▸ asked), ← parseViewState_searchOf, ← search, same, parseViewState_searchOf]

private theorem sound_moves (sound : ∀ id tab, browser.tabs id = some tab → tab.Sound clock)
    (moves : Moves setParams clock storage browser id e tab) : tab.Sound clock := by
  cases moves with
  | visit location => nofun
  | @navigate old here location => exact sound id old here
  | render here rendered => exact sound_render (sound id _ here) rendered
  | @effect old _ _ here ran =>
    obtain ⟨view, _, _, _, rfl⟩ := effect_eq_some ran
    exact sound id old here
  | @click old _ _ here clicked =>
    obtain ⟨view, state, _, _, rfl⟩ := click_eq_some clicked
    exact sound id old here

theorem sound_run (ran : run (Browser.step setParams clock storage) (.start items) es = some browser) :
    ∀ id tab, browser.tabs id = some tab → tab.Sound clock := by
  refine run_invariant (I := fun browser : Browser σ => ∀ id tab, browser.tabs id = some tab → tab.Sound clock) ?_ ?_ ran
  · intro before e next sound stepped
    exact tabs_step sound (fun _ _ => sound_moves sound) stepped
  · intro id tab there
    cases there

private theorem ne_setParams (router : ReadsBack setParams) {location : String} {s : ViewState}
    (blank : searchOf location = "") : location ≠ setParams (serializeViewState s) := by
  rintro rfl
  rw [searchOf_setParams router] at blank
  exact serializeViewState_ne_empty s blank

private theorem filled_moves (router : ReadsBack setParams) (sound : ∀ id tab, browser.tabs id = some tab → tab.Sound clock)
    (filled : ∀ id tab, browser.tabs id = some tab → tab.Filled) (follows : FollowsShown browser e)
    (moves : Moves setParams clock storage browser id e tab) : tab.Filled := by
  cases moves with
  | visit location => nofun
  | @navigate old here location =>
    intro view shown idle blank
    exact absurd (follows old here view shown) (filled id old here view shown idle blank)
  | @render old _ here rendered =>
    obtain ⟨idle, state, rfl, _⟩ := render_eq_some rendered
    rintro view ⟨⟩ settled blank
    -- The location was on display already, so that its effect has run.
    have same : old.shown.map View.location = some old.location := by simpa using settled
    obtain ⟨earlier, shown, location⟩ := Option.map_eq_some_iff.mp same
    apply (filled id old here earlier shown idle _ location).elim
    rw [(sound id old here earlier shown).search, location]
    exact blank
  | @effect old _ _ here ran =>
    obtain ⟨view, shown, _, _, rfl⟩ := effect_eq_some ran
    rintro other same _ blank
    cases shown.symm.trans same
    dsimp only
    rw [if_pos blank]
    exact ne_setParams router ((sound id old here view shown).search ▸ blank)
  | @click old _ _ here clicked =>
    obtain ⟨view, state, shown, _, rfl⟩ := click_eq_some clicked
    intro other same _ blank
    exact ne_setParams router ((sound id old here other same).search ▸ blank)

private theorem filled_run (router : ReadsBack setParams)
    (follows : StepsMeet (Browser.step setParams clock storage) FollowsShown (.start items) es)
    (ran : run (Browser.step setParams clock storage) (.start items) es = some browser) :
    ∀ id tab, browser.tabs id = some tab → tab.Filled := by
  refine run_trace_meeting (fun _ browser => ∀ id tab, browser.tabs id = some tab → tab.Filled) nofun ?_ follows ran
  intro _ before e next reached filled follows stepped
  exact tabs_step filled (fun _ _ => filled_moves router (sound_run reached) filled follows) stepped

theorem query_of_settled (router : ReadsBack setParams)
    (follows : StepsMeet (Browser.step setParams clock storage) FollowsShown (.start items) es)
    (ran : run (Browser.step setParams clock storage) (.start items) es = some browser) {view : View}
    (here : browser.tabs id = some tab) (settled : tab.Settled view) : view.search ≠ "" := by
  intro blank
  exact filled_run router follows ran id tab here view settled.shown settled.ran blank settled.current

/-- Whatever the storage holds and other tabs do, a settled tab shows the valid state that its URL says, and the URL has a
query. -/
theorem views_follow_urls (router : ReadsBack setParams)
    (follows : StepsMeet (Browser.step setParams clock storage) FollowsShown (.start items) es)
    (ran : run (Browser.step setParams clock storage) (.start items) es = some browser) {view : View}
    (here : browser.tabs id = some tab) (settled : tab.Settled view) :
    view.state.Valid clock ∧ parseViewState clock tab.location = view.state ∧ searchOf tab.location ≠ "" := by
  obtain ⟨search, valid, reads⟩ := sound_run ran id tab here view settled.shown
  have asked := query_of_settled router follows ran here settled
  rw [← settled.current, ← search]
  exact ⟨valid, (reads asked).symm, asked⟩

/-- The parameters after a question mark. -/
def replaceParams (init : String) : String := "?" ++ (UrlSearchParams.ofString init).toString

theorem replaceParams_reads : ReadsBack replaceParams := by
  intro init
  have plain := UrlSearchParams.ofString_toString (UrlSearchParams.ofString init)
  rw [UrlSearchParams.ofString, if_neg (UrlSearchParams.head_toString _)] at plain
  rw [UrlSearchParams.ofString, replaceParams, if_pos (by simp), String.toList_append]
  exact plain

/-- A visit without a query, and a detour through a link to the page itself. -/
def detour : List (BrowserEvent (List (String × String))) :=
  [.visit 0 "", .render 0, .effect 0, .render 0, .effect 0, .click 0 (.metric .tokens), .render 0, .effect 0,
    .navigate 0 "", .render 0, .effect 0, .render 0, .effect 0]

def tokensToday : View where
  location := "?range=today&metric=tokens"
  search := "range=today&metric=tokens"
  state := { metric := .tokens }

theorem views_follow_urls_detour :
    parseViewState utcClock "?range=today&metric=tokens" = { metric := .tokens } ∧
      searchOf "?range=today&metric=tokens" ≠ "" := by
  have ends : (run (Browser.step replaceParams utcClock (some mapStorage)) (.start []) detour).map
      (fun browser => browser.tabs 0) = some (some { location := tokensToday.location, shown := some tokensToday }) := by
    decide +kernel
  obtain ⟨browser, ran, here⟩ := Option.map_eq_some_iff.mp ends
  have follows : StepsMeet (Browser.step replaceParams utcClock (some mapStorage)) FollowsShown (.start []) detour := by
    decide +kernel
  exact (views_follow_urls replaceParams_reads follows ran here ⟨rfl, rfl, rfl⟩).2

end Invariant

end CliproxyUsage.Frontend
