import CliproxyUsage.Soundness.TabViews

/-! # Clicks add up

A tab shows the sum of its clicks, as long as each is made on a page that shows its location, and whatever
other tabs do to the storage. What was shown last is what a visit without a query shows, but for the drawer.
-/

namespace CliproxyUsage.Frontend

open JavaScript Machine

section Statement

variable {σ : Type}

/-- A key is what the server displays of some value of its dimension. -/
def Control.Displayed : Control → Prop
  | .toggle dim key | .detail dim key => ∃ value, filterKey dim.column value = key
  | _ => True

/-- A tab stays on the page, and its controls are only used when it has settled. -/
def Keeps (id : ℕ) (browser : Browser σ) : BrowserEvent σ → Prop
  | .visit other _ | .navigate other _ => other ≠ id
  | .click other _ => other = id → ∃ tab ∈ browser.tabs id, ∃ view ∈ tab.shown, tab.Settled view
  | _ => True

instance (id : ℕ) (browser : Browser σ) : ∀ e, Decidable (Keeps id browser e)
  | .visit other _ | .navigate other _ => inferInstanceAs (Decidable (other ≠ id))
  | .click other _ =>
    inferInstanceAs (Decidable (other = id → ∃ tab ∈ browser.tabs id, ∃ view ∈ tab.shown, tab.Settled view))
  | .render _ | .effect _ | .others _ => isTrue trivial

/-- The state after a control, as the viewer means it. -/
def Control.on (clock : LocalClock) (s : ViewState) (control : Control) : ViewState := (control.patch clock s).getD s

/-- The controls that are used in a tab. -/
def clicksIn (id : ℕ) (es : List (BrowserEvent σ)) : List Control :=
  es.filterMap fun e =>
    match e with
    | .click other control => if other = id then some control else none
    | _ => none

/-- An event that may change the storage. -/
def BrowserEvent.Stores : BrowserEvent σ → Prop
  | .effect _ | .others _ => True
  | _ => False

end Statement

section Clicks

variable {σ : Type} {setParams : String → String} {clock : LocalClock} {storage : Option (Storage σ)} {items : σ}
  {before browser after : Browser σ} {front es : List (BrowserEvent σ)} {id : ℕ} {e : BrowserEvent σ} {tab : Tab}
  {s : ViewState}

private theorem redactKey_ne_empty (key : String) : redactKey key ≠ "" := by
  rw [redactKey]
  split
  · exact fun blank => absurd (String.append_eq_empty_iff.mp (String.append_eq_empty_iff.mp blank).1).2 (by decide)
  · exact fun blank => absurd (String.append_eq_empty_iff.mp blank).1 (by decide)

/-- What the server displays of a value is never empty. -/
theorem filterKey_ne_empty (column : FilterColumn) (value : String) : filterKey column value ≠ "" := by
  cases column with
  | apiKey => exact redactKey_ne_empty value
  | model =>
    rw [filterKey, modelKey]
    split
    · decide
    · assumption
  | source =>
    rw [filterKey, redactSource]
    split_ifs with blank
    · decide
    · exact (not_or.mp blank).1
    · exact (not_or.mp blank).1
    · exact redactKey_ne_empty value

private theorem valid_select {dim : Dimension} {keys : List String} (valid : s.Valid clock)
    (unique : keys.Nodup) (named : "" ∉ keys) : (s.select dim keys).Valid clock := by
  have same : ∀ other, (s.select dim keys).selection other = if other = dim then keys else s.selection other := by
    intro other
    cases dim <;> cases other <;> rfl
  refine ⟨?_, ?_, ?_⟩
  · cases dim <;> exact valid.range
  · intro other
    rw [same]
    split
    · exact ⟨unique, named⟩
    · exact valid.selection other
  · cases dim <;> exact valid.drawer

/-- A control makes a valid state of a valid one. -/
private theorem valid_patch {control : Control} {next : ViewState} (valid : s.Valid clock) (displayed : control.Displayed)
    (patched : control.patch clock s = some next) : next.Valid clock := by
  cases control with
  | preset id =>
    cases patched
    exact ⟨nofun, valid.selection, valid.drawer⟩
  | custom start end_ =>
    rw [Control.patch] at patched
    split at patched
    · next ordered =>
      cases patched
      refine ⟨?_, valid.selection, valid.drawer⟩
      rintro _ _ ⟨⟩
      exact ordered
    · cases patched
  | toggle dim key =>
    cases patched
    obtain ⟨unique, named⟩ := valid.selection dim
    obtain ⟨value, rfl⟩ := displayed
    apply valid_select valid
    · split
      · exact unique.filter _
      · next absent => exact List.nodup_append_comm.mp (List.nodup_cons.mpr ⟨absent, unique⟩)
    · split
      · exact fun blank => named (List.mem_filter.mp blank).1
      · intro blank
        rcases List.mem_append.mp blank with old | own
        · exact named old
        · exact filterKey_ne_empty _ _ (List.mem_singleton.mp own).symm
  | clear dim =>
    rw [Control.patch] at patched
    split at patched
    · cases patched
    · cases patched
      exact valid_select valid List.nodup_nil List.not_mem_nil
  | granularity value =>
    cases patched
    exact ⟨valid.range, valid.selection, valid.drawer⟩
  | metric value =>
    cases patched
    exact ⟨valid.range, valid.selection, valid.drawer⟩
  | tab value =>
    cases patched
    exact ⟨valid.range, valid.selection, valid.drawer⟩
  | detail dim key =>
    cases patched
    obtain ⟨value, rfl⟩ := displayed
    refine ⟨valid.range, valid.selection, ?_⟩
    rintro target ⟨⟩
    exact filterKey_ne_empty _ _
  | close =>
    obtain ⟨target, opened, rfl⟩ := Option.map_eq_some_iff.mp patched
    exact valid.closed
  | filter =>
    obtain ⟨target, opened, rfl⟩ := Option.map_eq_some_iff.mp patched
    refine ⟨?_, ?_, ?_⟩
    · rw [scopeToEntity]
      split <;> exact valid.range
    · intro dim
      rw [selection_scopeToEntity]
      split
      · exact ⟨List.nodup_singleton _, fun blank => valid.drawer target opened (List.mem_singleton.mp blank).symm⟩
      · exact valid.selection dim
    · rw [scopeToEntity]
      split <;> nofun

/-- A tab whose location spells a state, and which shows a query. -/
private structure Spells (clock : LocalClock) (s : ViewState) (tab : Tab) : Prop where
  valid : s.Valid clock
  text : parseViewState clock tab.location = s
  asked : searchOf tab.location ≠ ""
  shows : ∃ view, tab.shown = some view ∧ view.search ≠ ""

private theorem spells_moves (router : ReadsBack setParams) (spells : ∃ tab, browser.tabs id = some tab ∧ Spells clock s tab)
    (sound : ∀ id tab, browser.tabs id = some tab → tab.Sound clock) (keeps : Keeps id browser e)
    (displayed : ∀ control ∈ clicksIn id [e], control.Displayed)
    (moves : Moves setParams clock storage browser id e tab) :
    Spells clock ((clicksIn id [e]).foldl (Control.on clock) s) tab := by
  obtain ⟨old, there, valid, text, asked, view, shown, query⟩ := spells
  cases moves with
  | visit location => exact absurd rfl keeps
  | navigate here location => exact absurd rfl keeps
  | render here rendered =>
    cases there.symm.trans here
    obtain ⟨_, state, rfl, _⟩ := render_eq_some rendered
    exact ⟨valid, text, asked, _, rfl, asked⟩
  | effect here ran =>
    cases there.symm.trans here
    obtain ⟨other, same, _, _, rfl⟩ := effect_eq_some ran
    cases shown.symm.trans same
    rw [if_neg query]
    exact ⟨valid, text, asked, _, shown, query⟩
  | @click _ _ control here clicked =>
    cases there.symm.trans here
    obtain ⟨other, state, same, patched, rfl⟩ := click_eq_some clicked
    cases shown.symm.trans same
    obtain ⟨settled, there', settledView, _, current⟩ := keeps rfl
    cases there.symm.trans there'
    cases shown.symm.trans current.shown
    have here : view.state = s := by
      rw [(sound id old there view shown).reads query, current.current, text]
    rw [here] at patched
    have next : (clicksIn id [BrowserEvent.click (σ := σ) id control]).foldl (Control.on clock) s = state := by
      simp [clicksIn, Control.on, patched]
    rw [next]
    have made := valid_patch valid (displayed control (by simp [clicksIn])) patched
    refine ⟨made, parseViewState_setParams router made, ?_, view, shown, query⟩
    rw [searchOf_setParams router]
    exact serializeViewState_ne_empty state

private theorem clicksIn_apart (apart : e.about ≠ some id) : clicksIn id [e] = [] := by
  cases e with
  | click other control =>
    have other_ : other ≠ id := fun own => apart (congrArg some own)
    simp [clicksIn, other_]
  | _ => rfl

private theorem spells_run (router : ReadsBack setParams)
    (started : run (Browser.step setParams clock storage) (.start items) front = some before)
    (spells : ∃ tab, before.tabs id = some tab ∧ Spells clock s tab)
    (keeps : StepsMeet (Browser.step setParams clock storage) (Keeps id) before es)
    (displayed : ∀ control ∈ clicksIn id es, control.Displayed)
    (ran : run (Browser.step setParams clock storage) before es = some after) :
    ∃ tab, after.tabs id = some tab ∧ Spells clock ((clicksIn id es).foldl (Control.on clock) s) tab := by
  refine run_trace_meeting (fun es after => (∀ control ∈ clicksIn id es, control.Displayed) →
    ∃ tab, after.tabs id = some tab ∧ Spells clock ((clicksIn id es).foldl (Control.on clock) s) tab)
    (fun _ => spells) ?_ keeps ran displayed
  intro es middle e next reached held keeps stepped displayed
  have clicks : clicksIn id (es ++ [e]) = clicksIn id es ++ clicksIn id [e] := List.filterMap_append ..
  rw [clicks, List.forall_mem_append] at displayed
  rw [clicks, List.foldl_append]
  rcases step_tabs stepped id with ⟨kept, apart⟩ | ⟨moved, there, moves⟩
  · rw [kept, clicksIn_apart apart]
    exact held displayed.1
  · have whole : run (Browser.step setParams clock storage) (.start items) (front ++ es) = some middle := by
      rw [run_append, started]
      exact reached
    exact ⟨moved, there, spells_moves router (held displayed.1) (sound_run whole) keeps displayed.2 moves⟩

/-- Clicks in a tab add up, whatever happens in between in other tabs or to the storage: its URL says the state that they make
of the one that the tab showed, and the tab shows that state when it has settled again. -/
theorem clicks_add_up (router : ReadsBack setParams)
    (follows : StepsMeet (Browser.step setParams clock storage) FollowsShown (.start items) front)
    (started : run (Browser.step setParams clock storage) (.start items) front = some before) {view : View}
    (here : before.tabs id = some tab) (settled : tab.Settled view)
    (keeps : StepsMeet (Browser.step setParams clock storage) (Keeps id) before es)
    (displayed : ∀ control ∈ clicksIn id es, control.Displayed)
    (ran : run (Browser.step setParams clock storage) before es = some after) :
    ∃ next, after.tabs id = some next ∧
      parseViewState clock next.location = (clicksIn id es).foldl (Control.on clock) view.state ∧
      ∀ view', next.Settled view' → view'.state = (clicksIn id es).foldl (Control.on clock) view.state := by
  have query := query_of_settled router follows started here settled
  have spells : Spells clock view.state tab := by
    obtain ⟨search, valid, reads⟩ := sound_run started id tab here view settled.shown
    refine ⟨valid, ?_, ?_, view, settled.shown, query⟩
    · rw [← settled.current]
      exact (reads query).symm
    · rw [← settled.current, ← search]
      exact query
  obtain ⟨next, there, _, text, asked, _⟩ := spells_run router started ⟨tab, here, spells⟩ keeps displayed ran
  refine ⟨next, there, text, fun view' settled' => ?_⟩
  have whole : run (Browser.step setParams clock storage) (.start items) (front ++ es) = some after := by
    rw [run_append, started]
    exact ran
  obtain ⟨search, _, reads⟩ := sound_run whole id next there view' settled'.shown
  rw [reads (by rwa [search, settled'.current]), settled'.current, text]

/-- Two clicks in one tab, with the visit of another one in between. -/
def clicksApart : List (BrowserEvent (List (String × String))) :=
  [.click 0 (.metric .tokens), .visit 1 "", .render 1, .render 0, .effect 0, .effect 1,
    .click 0 (.toggle .model "gpt-5"), .render 1, .render 0, .effect 0]

def shownToday : View where
  location := "?range=today"
  search := "range=today"
  state := {}

theorem clicks_add_up_apart :
    parseViewState utcClock "?range=today&metric=tokens&models=gpt-5" = { metric := .tokens, models := ["gpt-5"] } := by
  have opens : (run (Browser.step replaceParams utcClock (some mapStorage)) (.start []) (detour.take 5)).map
      (fun browser => (browser.tabs 0, run (Browser.step replaceParams utcClock (some mapStorage)) browser clicksApart |>.bind
        fun after => (after.tabs 0).map Tab.location,
        decide (StepsMeet (Browser.step replaceParams utcClock (some mapStorage)) (Keeps 0) browser clicksApart))) =
      some (some { location := shownToday.location, shown := some shownToday },
        some "?range=today&metric=tokens&models=gpt-5", true) := by decide +kernel
  obtain ⟨before, started, ends⟩ := Option.map_eq_some_iff.mp opens
  obtain ⟨here, rest⟩ := Prod.mk.inj ends
  obtain ⟨reached, keeps⟩ := Prod.mk.inj rest
  obtain ⟨after, ran, there⟩ := Option.bind_eq_some_iff.mp reached
  have follows :
      StepsMeet (Browser.step replaceParams utcClock (some mapStorage)) FollowsShown (.start []) (detour.take 5) := by
    decide +kernel
  have displayed : ∀ control ∈ clicksIn 0 clicksApart, control.Displayed := by
    intro control used
    have listed : control ∈ [Control.metric .tokens, .toggle .model "gpt-5"] := used
    rcases List.mem_pair.mp listed with rfl | rfl
    · trivial
    · exact ⟨"gpt-5", by decide⟩
  obtain ⟨next, tab, text, _⟩ := clicks_add_up replaceParams_reads follows started here ⟨rfl, rfl, rfl⟩
    (of_decide_eq_true keeps) displayed ran
  rw [tab] at there
  rw [← Option.some.inj there]
  exact text.trans (by decide)

end Clicks

section Saving

variable {σ : Type} {setParams : String → String} {clock : LocalClock} {items : σ} {before middle after : Browser σ}
  {front rest : List (BrowserEvent σ)} {id other : ℕ} {e : BrowserEvent σ} {tab : Tab}

private theorem step_items {storage : Option (Storage σ)} (quiet : ¬e.Stores)
    (stepped : before.step setParams clock storage e = some after) : after.items = before.items := by
  cases e with
  | visit other location =>
    cases stepped
    rfl
  | navigate other location =>
    obtain ⟨_, _, rfl⟩ := Option.map_eq_some_iff.mp stepped
    rfl
  | render other =>
    obtain ⟨_, _, rest⟩ := Option.bind_eq_some_iff.mp stepped
    obtain ⟨_, _, rfl⟩ := Option.map_eq_some_iff.mp rest
    rfl
  | effect other => exact absurd trivial quiet
  | click other control =>
    obtain ⟨_, _, rest⟩ := Option.bind_eq_some_iff.mp stepped
    obtain ⟨_, _, rfl⟩ := Option.map_eq_some_iff.mp rest
    rfl
  | others items => exact absurd trivial quiet

private theorem run_items {storage : Option (Storage σ)} (quiet : ∀ e ∈ rest, ¬e.Stores)
    (ran : run (Browser.step setParams clock storage) before rest = some after) : after.items = before.items := by
  induction rest generalizing before with
  | nil =>
    cases ran
    rfl
  | cons e rest ih =>
    obtain ⟨middle, stepped, ran⟩ := Option.bind_eq_some_iff.mp ran
    rw [ih (fun other later => quiet other (List.mem_cons_of_mem _ later)) ran]
    exact step_items (quiet e (List.mem_cons_self ..)) stepped

/-- In a storage that works, the view whose effect was the last to run is what a visit without a query shows, but for its
drawer. -/
theorem last_view_returns {storage : Storage σ} (works : storage.Works)
    (started : run (Browser.step setParams clock (some storage)) (.start items) front = some before) {view : View}
    (here : before.tabs id = some tab) (shown : tab.shown = some view) (quiet : ∀ e ∈ rest, ¬e.Stores)
    (ran : run (Browser.step setParams clock (some storage)) before (.effect id :: rest) = some middle) {location : String}
    (blank : searchOf location = "") :
    ∃ after next fresh,
      run (Browser.step setParams clock (some storage)) middle [.visit other location, .render other] = some after ∧
      after.tabs other = some next ∧ next.shown = some fresh ∧ fresh.state = { view.state with drawer := none } := by
  obtain ⟨saved, stepped, ran⟩ := Option.bind_eq_some_iff.mp ran
  obtain ⟨old, there, ended⟩ := Option.bind_eq_some_iff.mp stepped
  obtain ⟨⟨moved, stored⟩, effect, rfl⟩ := Option.map_eq_some_iff.mp ended
  cases here.symm.trans there
  obtain ⟨same, current, _, rfl, rfl⟩ := effect_eq_some effect
  cases shown.symm.trans current
  have valid := (sound_run started id tab here view shown).valid
  have items : middle.items = saveViewState view.state (some storage) before.items := run_items quiet ran
  have loaded : loadViewState clock (searchOf location) (some storage) middle.items = { view.state with drawer := none } := by
    rw [blank, items, loadViewState_saved clock works valid]
  obtain ⟨fresh, rendered, state⟩ := render_visited clock (some storage) middle.items location
  have visited : (middle.put other { location }).tabs other = some { location } := Function.update_self ..
  refine ⟨(middle.put other { location }).put other { location, shown := some fresh, pending := true },
    { location, shown := some fresh, pending := true }, fresh, ?_, Function.update_self .., rfl, state.trans loaded⟩
  simp only [run, Browser.step, Option.bind_some, visited, Browser.put_items, rendered, Option.map_some]

theorem last_view_returns_visit : ∃ middle after next fresh,
    run (Browser.step replaceParams utcClock (some mapStorage)) (.start []) detour = some middle ∧
      run (Browser.step replaceParams utcClock (some mapStorage)) middle [.visit 1 "", .render 1] = some after ∧
        after.tabs 1 = some next ∧ next.shown = some fresh ∧ fresh.state = { metric := .tokens } := by
  have ends : (run (Browser.step replaceParams utcClock (some mapStorage)) (.start []) (detour.take 12)).map (fun browser =>
      (browser.tabs 0, (run (Browser.step replaceParams utcClock (some mapStorage)) browser [.effect 0]).isSome)) =
      some (some { location := tokensToday.location, shown := some tokensToday, pending := true }, true) := by
    decide +kernel
  obtain ⟨before, started, rest⟩ := Option.map_eq_some_iff.mp ends
  obtain ⟨here, last⟩ := Prod.mk.inj rest
  obtain ⟨middle, ran⟩ := Option.isSome_iff_exists.mp last
  have whole : run (Browser.step replaceParams utcClock (some mapStorage)) (.start []) detour = some middle := by
    rw [show detour = detour.take 12 ++ [.effect 0] from rfl, run_append, started]
    exact ran
  obtain ⟨after, next, fresh, visited, there, shown, state⟩ :=
    @last_view_returns _ replaceParams utcClock [] before middle _ [] 0 1 _ mapStorage mapStorage_works started tokensToday
      here rfl nofun ran "" (by decide)
  exact ⟨middle, after, next, fresh, whole, visited, there, shown, state⟩

end Saving

end CliproxyUsage.Frontend
