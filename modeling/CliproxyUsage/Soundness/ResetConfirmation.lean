import CliproxyUsage.Frontend.QuotaCard

/-! # A reset is sent once, and only as confirmed

The confirmation of a reset belongs to the response on display when it was opened. Every reset that a card
sends was asked for and then confirmed in front of one and the same quota, and a card that stays mounted
never runs two of them.
-/

namespace CliproxyUsage.Frontend

open Machine Quota

variable {M : Type} {library : MutationObserver M}

/-- A response is stored at a later time than the one before it. -/
def Later (card : Card M) : CardEvent → Prop
  | .stored _ at_ => card.now.query.dataUpdatedAt < at_
  | _ => True

instance : ∀ (card : Card M) e, Decidable (Later card e)
  | card, .stored _ at_ => inferInstanceAs (Decidable (card.now.query.dataUpdatedAt < at_))
  | _, .click _ | _, .render | _, .failed _ | _, .settled .. | _, .visit => isTrue trivial

/-- The second query is the first one or came after it; the time tells the responses apart. -/
def Follows (first second : QuotaQuery) : Prop :=
  first.dataUpdatedAt ≤ second.dataUpdatedAt ∧
    (first.dataUpdatedAt = second.dataUpdatedAt → first.data = second.data)

/-- What ends a confirmation. -/
def Closes : CardEvent → Prop
  | .click .cancelReset | .click .confirmReset | .visit => True
  | _ => False

theorem follows_refl (query : QuotaQuery) : Follows query query := ⟨le_rfl, fun _ => rfl⟩

theorem Follows.trans {first second third : QuotaQuery} (one : Follows first second) (two : Follows second third) :
    Follows first third := by
  refine ⟨one.1.trans two.1, ?_⟩
  intro same
  have left : first.dataUpdatedAt = second.dataUpdatedAt := le_antisymm one.1 (same ▸ two.1)
  exact (one.2 left).trans (two.2 (left ▸ same))

variable {card next : Card M} {e : CardEvent}

/-- A click acts on the card and renders it. -/
theorem Card.step_click {button : Button} (stepped : card.step library (.click button) = some next) :
    card.shown.offers library button = true ∧ next = (card.press library button).render := by
  rw [Card.step] at stepped
  split at stepped
  · next offered => exact ⟨offered, (Option.some.inj stepped).symm⟩
  · cases stepped

theorem Card.step_settled {post : ℕ} {outcome : Except String Unit}
    (stepped : card.step library (.settled post outcome) = some next) :
    post ∈ card.running ∧ next = card.settle library post outcome := by
  rw [Card.step] at stepped
  split at stepped
  · next runs => exact ⟨runs, (Option.some.inj stepped).symm⟩
  · cases stepped

@[simp] theorem Card.query_press (button : Button) : (card.press library button).now.query = card.now.query := by
  cases button <;> rfl

/-- What is on display only moves forward, and never past what is stored. -/
private theorem step_follows (behind : Follows card.shown.query card.now.query) (later : Later card e)
    (stepped : card.step library e = some next) :
    Follows next.shown.query next.now.query ∧ Follows card.shown.query next.shown.query := by
  cases e with
  | click button =>
    obtain ⟨_, rfl⟩ := Card.step_click stepped
    refine ⟨follows_refl _, ?_⟩
    rw [Card.render, Card.query_press]
    exact behind
  | render =>
    cases stepped
    exact ⟨follows_refl _, behind⟩
  | stored response at_ =>
    cases stepped
    have before : card.shown.query.dataUpdatedAt < at_ := behind.1.trans_lt later
    exact ⟨⟨before.le, fun same => absurd same before.ne⟩, follows_refl _⟩
  | failed message =>
    cases stepped
    exact ⟨behind, follows_refl _⟩
  | settled post outcome =>
    obtain ⟨_, rfl⟩ := Card.step_settled stepped
    exact ⟨behind, follows_refl _⟩
  | visit =>
    cases stepped
    exact ⟨follows_refl _, behind⟩

/-- Where a confirmation comes from: a click that asked for the reset, before the response on display then,
with nothing since then that ends the confirmation. -/
structure Opened (library : MutationObserver M) (query : QuotaQuery) (es : List CardEvent) (at_ j : ℕ) : Prop where
  asked : es[j]? = some (.click .requestReset)
  before : ∃ middle, run (Card.step library) (.start library query) (es.take j) = some middle ∧
    middle.shown.query.dataUpdatedAt = at_
  since : ∀ k e, j < k → es[k]? = some e → ¬Closes e

private theorem Opened.concat {query : QuotaQuery} {es : List CardEvent} {at_ j : ℕ}
    (opened : Opened library query es at_ j) (keeps : ¬Closes e) : Opened library query (es ++ [e]) at_ j where
  asked := getElem?_concat.mpr (.inl opened.asked)
  before := by
    have bound := (List.getElem?_eq_some_iff.mp opened.asked).1
    rw [List.take_append_of_le_length bound.le]
    exact opened.before
  since k other past here := by
    rcases getElem?_concat.mp here with earlier | ⟨_, rfl⟩
    · exact opened.since k other past earlier
    · exact keeps

/-- Clicks and visits render, so the confirmation on display is the current one. -/
structure Traced (library : MutationObserver M) (query : QuotaQuery) (es : List CardEvent) (card : Card M) : Prop where
  shown : card.shown.confirmedAt = card.now.confirmedAt
  opened : ∀ at_, card.now.confirmedAt = some at_ → ∃ j, Opened library query es at_ j

private theorem traced_step {query : QuotaQuery} {es : List CardEvent}
    (reached : run (Card.step library) (.start library query) es = some card) (traced : Traced library query es card)
    (stepped : card.step library e = some next) : Traced library query (es ++ [e]) next := by
  have kept (keeps : ¬Closes e) (same : next.now.confirmedAt = card.now.confirmedAt) :
      ∀ at_, next.now.confirmedAt = some at_ → ∃ j, Opened library query (es ++ [e]) at_ j := by
    intro at_ confirmed
    obtain ⟨j, opened⟩ := traced.opened at_ (same ▸ confirmed)
    exact ⟨j, opened.concat keeps⟩
  cases e with
  | click button =>
    obtain ⟨_, rfl⟩ := Card.step_click stepped
    refine ⟨rfl, ?_⟩
    cases button with
    | requestReset =>
      rintro at_ ⟨⟩
      refine ⟨es.length, ?_, ⟨card, ?_, rfl⟩, ?_⟩
      · exact getElem?_concat.mpr (.inr ⟨rfl, rfl⟩)
      · rwa [List.take_left']
        rfl
      · intro k other past here
        have bound := (List.getElem?_eq_some_iff.mp here).1
        rw [List.length_append, List.length_singleton] at bound
        omega
    | cancelReset => nofun
    | confirmReset => nofun
    | retry => exact kept id rfl
    | refresh => exact kept id rfl
  | render =>
    cases stepped
    exact ⟨rfl, kept id rfl⟩
  | stored response at_ =>
    cases stepped
    exact ⟨traced.shown, kept id rfl⟩
  | failed message =>
    cases stepped
    exact ⟨traced.shown, kept id rfl⟩
  | settled post outcome =>
    obtain ⟨_, rfl⟩ := Card.step_settled stepped
    exact ⟨traced.shown, kept id rfl⟩
  | visit =>
    cases stepped
    exact ⟨rfl, nofun⟩

private theorem traced_run {query : QuotaQuery} {es : List CardEvent}
    (ran : run (Card.step library) (.start library query) es = some card) : Traced library query es card := by
  refine run_trace (Traced library query) ⟨rfl, ?_⟩ ?_ ran
  · intro at_ confirmed
    cases confirmed
  · intro es middle e next reached held stepped
    exact traced_step reached held stepped

/-- A confirmation that is on display asks about the response on display. -/
private theorem confirming_of_offers {panel : Panel M} (offered : panel.offers library .confirmReset = true) :
    ∃ quota, renderBody panel.query = .quota quota ∧ canStartReset (some quota) = true ∧
      panel.confirmedAt = some panel.query.dataUpdatedAt := by
  rw [Panel.offers] at offered
  split at offered
  · next quota body =>
    rw [Bool.and_eq_true, decide_eq_true_eq] at offered
    refine ⟨quota, body, offered.2, ?_⟩
    by_contra other
    have plain : panel.reset library ≠ .confirming := by
      rw [Panel.reset, decide_eq_false other]
      cases library.state panel.mutation <;> simp [resetState]
    exact plain offered.1
  · cases offered

/-- A response on display hides the error of a later refetch. -/
private theorem renderBody_congr {first second : QuotaQuery} {quota : ProviderQuota}
    (same : first.data = second.data) (body : renderBody second = .quota quota) : renderBody first = .quota quota := by
  rw [renderBody] at body ⊢
  rw [same]
  cases stored : second.data with
  | none =>
    rw [stored] at body
    cases failed : second.error <;> simp [failed] at body
  | some response =>
    rw [stored] at body
    exact body

/-- Every reset that is sent was asked for and confirmed before one quota, which stayed on display in
between and has a reset left. -/
theorem resets_are_confirmed {query : QuotaQuery} {es : List CardEvent}
    (later : StepsMeet (Card.step library) Later (.start library query) es)
    (ran : run (Card.step library) (.start library query) es = some card) {i : ℕ}
    (sent : es[i]? = some (.click .confirmReset)) :
    ∃ j < i, es[j]? = some (.click .requestReset) ∧
      (∀ k e, j < k → k < i → es[k]? = some e → ¬Closes e) ∧
      ∃ quota, canStartReset (some quota) = true ∧ ∀ k middle, j ≤ k → k ≤ i →
        run (Card.step library) (.start library query) (es.take k) = some middle →
          renderBody middle.shown.query = .quota quota := by
  obtain ⟨here, reached⟩ := run_take ran i
  obtain ⟨after, reached'⟩ := run_take ran (i + 1)
  obtain ⟨offered, _⟩ := Card.step_click ((run_take_succ sent reached).mp reached')
  obtain ⟨quota, body, left, confirmed⟩ := confirming_of_offers offered
  have traced := traced_run reached
  obtain ⟨j, opened⟩ := traced.opened _ (traced.shown ▸ confirmed)
  have within : j < i := by
    have bound := (List.getElem?_eq_some_iff.mp opened.asked).1
    rw [List.length_take] at bound
    omega
  obtain ⟨first, began, stamp⟩ := opened.before
  rw [List.take_take, Nat.min_eq_left within.le] at began
  refine ⟨j, within, ?_, ?_, quota, left, ?_⟩
  · rw [← opened.asked, List.getElem?_take, if_pos within]
  · intro k e past before here
    apply opened.since k e past
    rwa [List.getElem?_take, if_pos before]
  · intro k middle from_ until_ reachedMiddle
    -- The display moved from the click through this state to the confirmation, and its time did not.
    have related {a b : ℕ} {before after : Card M} (le : a ≤ b)
        (earlier : run (Card.step library) (.start library query) (es.take a) = some before)
        (following : run (Card.step library) (.start library query) (es.take b) = some after) :
        Follows before.shown.query after.shown.query :=
      run_related (I := fun card : Card M => Follows card.shown.query card.now.query)
        (R := fun before after : Card M => Follows before.shown.query after.shown.query)
        (fun _ => follows_refl _) Follows.trans (fun _ _ _ held met stepped => step_follows held met stepped)
        (follows_refl query) later le earlier following
    have down := related from_ began reachedMiddle
    have up := related until_ reachedMiddle reached
    exact renderBody_congr (up.2 (le_antisymm up.1 (stamp ▸ down.1))) body

def resetResponse (left : ℕ) : QuotaResponse where
  quota := some { provider := .codex, authName := "team.json", planType := none, windows := [],
                  manualResets := some { availableCount := left } }
  error := none
  fetchedAt := 0
  staleAt := 300000000
  exactlyOne := by simp

/-- The last reset of a card, which names its request while it runs. -/
inductive Mutation where
  | idle
  | pending (post : ℕ)
  | success
  | error (message : String)
deriving DecidableEq, Repr

namespace Mutation

def state : Mutation → MutationState
  | .idle => .idle
  | .pending _ => .pending
  | .success => .success
  | .error message => .error message

/-- Only the request that the mutation observes changes it. -/
def settle (mutation : Mutation) (post : ℕ) (outcome : Except String Unit) : Mutation :=
  if mutation = .pending post then
    match outcome with
    | .ok () => .success
    | .error message => .error message
  else mutation

def observer : MutationObserver Mutation where
  fresh := .idle
  reset _ := .idle
  mutate _ post := .pending post
  settle := settle
  state := state

end Mutation

/-- A refetch cancels the first confirmation, and the second one is confirmed. -/
def secondThoughts : List CardEvent :=
  [.stored (resetResponse 2) 10, .render, .click .requestReset, .stored (resetResponse 1) 20, .render,
    .click .requestReset, .failed "offline", .click .confirmReset]

def secondThoughtsEnd : Card Mutation where
  now := { query := ⟨some (resetResponse 1), some "offline", 20⟩, mutation := .pending 0 }
  shown := { query := ⟨some (resetResponse 1), some "offline", 20⟩, mutation := .pending 0 }
  running := [0]
  sent := 1

theorem secondThoughts_runs :
    run (Card.step Mutation.observer) (.start Mutation.observer {}) secondThoughts = some secondThoughtsEnd := by decide

theorem resets_are_confirmed_second :
    ∃ j < 7, secondThoughts[j]? = some (.click .requestReset) ∧
      (∀ k e, j < k → k < 7 → secondThoughts[k]? = some e → ¬Closes e) ∧
      ∃ quota, canStartReset (some quota) = true ∧ ∀ k middle, j ≤ k → k ≤ 7 →
        run (Card.step Mutation.observer) (.start Mutation.observer {}) (secondThoughts.take k) = some middle →
          renderBody middle.shown.query = .quota quota :=
  resets_are_confirmed (by decide) secondThoughts_runs rfl

section Running

def CardEvent.isVisit : CardEvent → Bool
  | .visit => true
  | _ => false

/-- An observer is pending from the start of a reset until that very reset settles. It is idle on a new mount and after it was
reset, and other resets do not change it. -/
structure MutationObserver.Documented (library : MutationObserver M) (observed : M → Option ℕ) : Prop where
  fresh : library.state library.fresh = .idle
  reset : ∀ m, library.state (library.reset m) = .idle
  pending : ∀ m, library.state m = .pending ↔ observed m ≠ none
  mutate : ∀ m post, observed (library.mutate m post) = some post
  own : ∀ m post outcome, observed m = some post → library.state (library.settle m post outcome) =
    match outcome with
    | .ok () => .success
    | .error message => .error message
  other : ∀ m post outcome, observed m ≠ some post → library.settle m post outcome = m

variable {observed : M → Option ℕ}

/-- All running resets but the observed one were left behind by visits, and the display shows the observed one. -/
structure Single (observed : M → Option ℕ) (es : List CardEvent) (card : Card M) : Prop where
  left : card.running.length ≤ es.countP CardEvent.isVisit + (observed card.now.mutation).toList.length
  runs : ∀ post, observed card.now.mutation = some post → post ∈ card.running
  shows : ∀ post, observed card.now.mutation = some post → observed card.shown.mutation = some post

private theorem observed_le_one (post : Option ℕ) : post.toList.length ≤ 1 := by
  cases post <;> simp

private theorem visits_concat (es : List CardEvent) (e : CardEvent) (stays : e.isVisit = false) :
    (es ++ [e]).countP CardEvent.isVisit = es.countP CardEvent.isVisit := by
  simp [stays]

section Observing

variable (documented : library.Documented observed)

include documented

/-- What is not pending observes no reset. -/
private theorem observed_none {m : M} (settled : library.state m ≠ .pending) : observed m = none :=
  not_not.mp fun some_ => settled ((documented.pending m).mpr some_)

private theorem observed_fresh : observed library.fresh = none := by
  apply observed_none documented
  rw [documented.fresh]
  nofun

private theorem observed_reset (m : M) : observed (library.reset m) = none := by
  apply observed_none documented
  rw [documented.reset]
  nofun

private theorem observed_settle {m : M} {post : ℕ} (own : observed m = some post) (outcome : Except String Unit) :
    observed (library.settle m post outcome) = none := by
  apply observed_none documented
  rw [documented.own m post outcome own]
  cases outcome <;> nofun

/-- The buttons of a reset are off while one is on display as running. -/
private theorem settled_of_offers {panel : Panel M} {button : Button} (offered : panel.offers library button = true)
    (own : button = .requestReset ∨ button = .confirmReset) : observed panel.mutation = none := by
  apply observed_none documented
  intro pending
  have loading : panel.reset library = .loading := by rw [Panel.reset, pending, resetState]
  rcases own with rfl | rfl <;> rw [Panel.offers, loading] at offered <;> split at offered <;> simp at offered

private theorem single_press {es : List CardEvent} {button : Button} (single : Single observed es card)
    (offered : card.shown.offers library button = true) :
    Single observed (es ++ [.click button]) (card.press library button).render := by
  have visits := visits_concat es (.click button) rfl
  have idle (own : button = .requestReset ∨ button = .confirmReset) :
      card.running.length ≤ es.countP CardEvent.isVisit := by
    have settled : observed card.now.mutation = none := by
      rw [Option.eq_none_iff_forall_ne_some]
      intro post here
      cases (settled_of_offers documented offered own).symm.trans (single.shows post here)
    simpa [settled] using single.left
  cases button with
  | retry => exact ⟨visits ▸ single.left, single.runs, fun _ => id⟩
  | refresh => exact ⟨visits ▸ single.left, single.runs, fun _ => id⟩
  | cancelReset => exact ⟨visits ▸ single.left, single.runs, fun _ => id⟩
  | requestReset =>
    have none_ := observed_reset documented card.now.mutation
    refine ⟨?_, fun post here => ?_, fun _ => id⟩
    · rw [visits]
      exact (idle (.inl rfl)).trans (Nat.le_add_right ..)
    · cases none_.symm.trans here
  | confirmReset =>
    have new := documented.mutate card.now.mutation card.sent
    refine ⟨?_, fun post here => ?_, fun _ => id⟩
    · rw [visits]
      simpa [Card.press, Card.render, new] using idle (.inr rfl)
    · cases new.symm.trans here
      simp [Card.press, Card.render]

private theorem single_settle {es : List CardEvent} {post : ℕ} {outcome : Except String Unit}
    (single : Single observed es card) (runs : post ∈ card.running) :
    Single observed (es ++ [.settled post outcome]) (card.settle library post outcome) := by
  have visits := visits_concat es (.settled post outcome) rfl
  have some_ := List.length_pos_of_mem runs
  have bound := single.left
  by_cases own : observed card.now.mutation = some post
  · have cleared : observed (card.settle library post outcome).now.mutation = none := observed_settle documented own outcome
    refine ⟨?_, fun other here => ?_, fun other here => ?_⟩
    · rw [visits, cleared, Card.settle, List.length_erase_of_mem runs]
      rw [own] at bound
      simp only [Option.toList_some, Option.toList_none, List.length_cons, List.length_nil] at bound ⊢
      omega
    · cases cleared.symm.trans here
    · cases cleared.symm.trans here
  · have same : (card.settle library post outcome).now.mutation = card.now.mutation := documented.other _ post outcome own
    refine ⟨?_, ?_, ?_⟩
    · rw [visits, same, Card.settle, List.length_erase_of_mem runs]
      omega
    · intro other here
      rw [same] at here
      have apart : other ≠ post := fun equal => own (equal ▸ here)
      exact (List.mem_erase_of_ne apart).mpr (single.runs other here)
    · intro other here
      rw [same] at here
      exact single.shows other here

private theorem single_step {es : List CardEvent} (single : Single observed es card)
    (stepped : card.step library e = some next) : Single observed (es ++ [e]) next := by
  cases e with
  | click button =>
    obtain ⟨offered, rfl⟩ := Card.step_click stepped
    exact single_press documented single offered
  | render =>
    cases stepped
    exact ⟨visits_concat es .render rfl ▸ single.left, single.runs, fun _ => id⟩
  | stored response at_ =>
    cases stepped
    exact ⟨visits_concat es (.stored response at_) rfl ▸ single.left, single.runs, single.shows⟩
  | failed message =>
    cases stepped
    exact ⟨visits_concat es (.failed message) rfl ▸ single.left, single.runs, single.shows⟩
  | settled post outcome =>
    obtain ⟨runs, rfl⟩ := Card.step_settled stepped
    exact single_settle documented single runs
  | visit =>
    cases stepped
    have none_ := observed_fresh documented
    refine ⟨?_, fun post here => ?_, fun _ => id⟩
    · have one := observed_le_one (observed card.now.mutation)
      have bound := single.left
      simp only [Card.mounted, none_, List.countP_append, List.countP_cons, List.countP_nil, CardEvent.isVisit,
        Option.toList_none, List.length_nil, if_true]
      omega
    · cases none_.symm.trans here

end Observing

/-- A card runs at most one reset, and one more for each visit that left one behind. -/
theorem running_le_visits (documented : library.Documented observed) {query : QuotaQuery} {es : List CardEvent}
    (ran : run (Card.step library) (.start library query) es = some card) :
    card.running.length ≤ es.countP CardEvent.isVisit + 1 := by
  have single : Single observed es card := by
    refine run_trace (Single observed) ?_ ?_ ran
    · have none_ := observed_fresh documented
      refine ⟨Nat.zero_le _, fun post here => ?_, fun _ => id⟩
      cases none_.symm.trans here
    · intro es middle e next _ held stepped
      exact single_step documented held stepped
  exact single.left.trans (Nat.add_le_add_left (observed_le_one _) _)

/-- The request of a pending mutation. -/
def Mutation.request : Mutation → Option ℕ
  | .pending post => some post
  | _ => none

theorem Mutation.observer_documented : Mutation.observer.Documented Mutation.request where
  fresh := rfl
  reset _ := rfl
  pending m := by cases m <;> simp [Mutation.observer, Mutation.state, Mutation.request]
  mutate _ _ := rfl
  own m post outcome own := by
    cases m with
    | pending other =>
      cases own
      cases outcome <;> simp [Mutation.observer, Mutation.state, Mutation.settle]
    | _ => cases own
  other m post outcome apart := by
    refine if_neg ?_
    rintro rfl
    exact apart rfl

/-- The reset of the first visit still runs when the second one is sent. -/
def secondVisit : List CardEvent :=
  [.stored (resetResponse 2) 10, .render, .click .requestReset, .click .confirmReset, .visit,
    .click .requestReset, .click .confirmReset]

theorem running_le_visits_second : [0, 1].length ≤ secondVisit.countP CardEvent.isVisit + 1 := by
  have ran : run (Card.step Mutation.observer) (.start Mutation.observer {}) secondVisit = some
      { now := { query := ⟨some (resetResponse 2), none, 10⟩, mutation := .pending 1 }
        shown := { query := ⟨some (resetResponse 2), none, 10⟩, mutation := .pending 1 }
        running := [0, 1]
        sent := 2 } := by decide
  exact running_le_visits Mutation.observer_documented ran

end Running

end CliproxyUsage.Frontend
