import Mathlib.Data.List.Forall2
import Mathlib.Data.List.TakeWhile

/-! # Results of computations that may fail

Peeling a successful `Except` computation apart, and mapping a failing function over a list with
`List.mapM`: the whole succeeds exactly when every item does.
-/

variable {α β γ ε : Type}

namespace Except

theorem bind_eq_ok {result : Except ε α} {f : α → Except ε β} {b : β} :
    result.bind f = .ok b ↔ ∃ a, result = .ok a ∧ f a = .ok b := by
  cases result <;> simp [Except.bind]

@[simp] theorem bind_ok (a : α) (f : α → Except ε β) : (Except.ok a).bind f = f a := rfl

@[simp] theorem bind_error (e : ε) (f : α → Except ε β) : (Except.error e).bind f = .error e := rfl

/-- The `do` notation of this monad is `Except.bind`. -/
theorem bind_def (result : Except ε α) (f : α → Except ε β) : (result >>= f) = result.bind f := rfl

theorem exists_ok {result : Except ε α} (succeeds : result.toOption.isSome) : ∃ a, result = .ok a := by
  cases result with
  | ok a => exact ⟨a, rfl⟩
  | error e => contradiction

theorem toOption_eq_some {result : Except ε α} {a : α} : result.toOption = some a ↔ result = .ok a := by
  cases result <;> simp [Except.toOption]

theorem pure_def (a : α) : (pure a : Except ε α) = .ok a := rfl

end Except

namespace List

theorem mapM_ok_iff {f : α → Except ε β} {items : List α} {values : List β} :
    items.mapM f = .ok values ↔ Forall₂ (fun item value => f item = .ok value) items values := by
  induction items generalizing values with
  | nil => cases values <;> simp [Except.pure_def]
  | cons item rest ih =>
    simp only [mapM_cons, Except.bind_def, Except.bind_eq_ok, Except.pure_def, Except.ok.injEq, ih]
    constructor
    · rintro ⟨value, first, found, later, rfl⟩
      exact .cons first later
    · rintro (_ | ⟨first, later⟩)
      exact ⟨_, first, _, later, rfl⟩

private theorem exists_of_forall₂ {R : α → β → Prop} {items : List α} {values : List β} (each : Forall₂ R items values)
    {item : α} (member : item ∈ items) : ∃ value ∈ values, R item value := by
  induction each with
  | nil => contradiction
  | cons here _ ih =>
    rcases mem_cons.mp member with rfl | later
    · exact ⟨_, mem_cons_self .., here⟩
    · obtain ⟨value, listed, related⟩ := ih later
      exact ⟨value, mem_cons_of_mem _ listed, related⟩

theorem mem_of_mapM_ok {f : α → Except ε β} {items : List α} {values : List β}
    (mapped : items.mapM f = .ok values) {value : β} (member : value ∈ values) :
    ∃ item ∈ items, f item = .ok value := by
  have each : Forall₂ (fun value item => f item = .ok value) values items := .flip (mapM_ok_iff.mp mapped)
  exact exists_of_forall₂ each member

theorem value_of_mapM_ok {f : α → Except ε β} {items : List α} {values : List β}
    (mapped : items.mapM f = .ok values) {item : α} (member : item ∈ items) :
    ∃ value ∈ values, f item = .ok value :=
  exists_of_forall₂ (mapM_ok_iff.mp mapped) member

theorem ok_of_mapM_ok {f : α → Except ε β} {items : List α} {values : List β}
    (mapped : items.mapM f = .ok values) {item : α} (member : item ∈ items) : ∃ value, f item = .ok value := by
  obtain ⟨value, _, found⟩ := value_of_mapM_ok mapped member
  exact ⟨value, found⟩

/-- What is read off each value is known from its item. -/
theorem map_of_mapM_ok {f : α → Except ε β} {read : β → γ} {known : α → γ} {items : List α} {values : List β}
    (mapped : items.mapM f = .ok values)
    (reads : ∀ item ∈ items, ∀ value, f item = .ok value → read value = known item) :
    values.map read = items.map known := by
  have each := mapM_ok_iff.mp mapped
  clear mapped
  induction each with
  | nil => rfl
  | cons here _ ih =>
    rw [map_cons, map_cons, reads _ (mem_cons_self ..) _ here,
      ih fun item later => reads item (mem_cons_of_mem _ later)]

theorem mapM_congr {f g : α → Except ε β} {items : List α} (same : ∀ item ∈ items, f item = g item) :
    items.mapM f = items.mapM g := by
  induction items with
  | nil => rfl
  | cons item rest ih =>
    rw [mapM_cons, mapM_cons, same item (mem_cons_self ..),
      ih fun other member => same other (mem_cons_of_mem _ member)]

/-- Two related passes over a list compose element by element. -/
theorem forall₂_comp {R : α → β → Prop} {S : β → γ → Prop} {items : List α} {values : List γ} :
    (∃ middle, Forall₂ R items middle ∧ Forall₂ S middle values) ↔
      Forall₂ (fun item value => ∃ m, R item m ∧ S m value) items values := by
  constructor
  · rintro ⟨middle, first, second⟩
    induction first generalizing values with
    | nil =>
      cases second
      exact .nil
    | cons here _ ih =>
      cases second with
      | cons there later => exact .cons ⟨_, here, there⟩ (ih later)
  · intro both
    induction both with
    | nil => exact ⟨[], .nil, .nil⟩
    | cons here _ ih =>
      obtain ⟨m, first, second⟩ := here
      obtain ⟨middle, firsts, seconds⟩ := ih
      exact ⟨m :: middle, .cons first firsts, .cons second seconds⟩

/-- Two passes over a list succeed exactly when the composed function does on every item. -/
theorem mapM_mapM_ok_iff {f : α → Except ε β} {g : β → Except ε γ} {items : List α} {values : List γ} :
    ((items.mapM f).bind fun middle => middle.mapM g) = .ok values ↔
      items.mapM (fun item => (f item).bind g) = .ok values := by
  simp only [Except.bind_eq_ok, mapM_ok_iff]
  exact forall₂_comp

theorem mapM_total {f : α → Except ε β} {items : List α} (defined : ∀ item ∈ items, ∃ value, f item = .ok value) :
    ∃ values, items.mapM f = .ok values := by
  induction items with
  | nil => exact ⟨[], rfl⟩
  | cons item rest ih =>
    obtain ⟨value, here⟩ := defined item (mem_cons_self ..)
    obtain ⟨values, later⟩ := ih fun other member => defined other (mem_cons_of_mem _ member)
    exact ⟨value :: values, by rw [mapM_cons, here, Except.bind_def, Except.bind_ok, later]; rfl⟩

/-- A pass that is stopped early raises nothing bad exactly when every item before the stop has a value. -/
theorem mapM_not_bad_iff {f : α → Except ε β} {bad : ε → Prop} {passes : α → Bool}
    (stops : ∀ a, passes a = false → ∃ e, f a = .error e ∧ ¬bad e)
    (fails : ∀ a e, passes a = true → f a = .error e → bad e) {items : List α} :
    (∀ e, items.mapM f = .error e → ¬bad e) ↔ ∀ a ∈ items.takeWhile passes, ∃ b, f a = .ok b := by
  induction items with
  | nil => simp [Except.pure_def]
  | cons a rest ih =>
    rw [mapM_cons, Except.bind_def, takeWhile_cons]
    cases passed : passes a with
    | false =>
      obtain ⟨e, raised, good⟩ := stops a passed
      rw [raised]
      simpa using good
    | true =>
      cases here : f a with
      | error e => simp [here, fails a e passed here]
      | ok b =>
        have later : (∀ e, ((rest.mapM f).bind fun bs => .ok (b :: bs)) = .error e → ¬bad e) ↔
            ∀ e, rest.mapM f = .error e → ¬bad e := by
          cases rest.mapM f <;> simp
        simp only [Except.bind_ok, Except.bind_def, Except.pure_def, if_true, forall_mem_cons, here, Except.ok.injEq,
          exists_eq', true_and]
        exact later.trans ih

/-- Such a pass has values exactly when no item stops it. -/
theorem mapM_ok_iff_passes {f : α → Except ε β} {bad : ε → Prop} {passes : α → Bool}
    (stops : ∀ a, passes a = false → ∃ e, f a = .error e ∧ ¬bad e)
    (fails : ∀ a e, passes a = true → f a = .error e → bad e) {items : List α}
    (notBad : ∀ e, items.mapM f = .error e → ¬bad e) :
    (∃ values, items.mapM f = .ok values) ↔ ∀ a ∈ items, passes a = true := by
  constructor
  · rintro ⟨values, mapped⟩ a member
    obtain ⟨b, here⟩ := ok_of_mapM_ok mapped member
    cases passed : passes a with
    | true => rfl
    | false =>
      obtain ⟨e, raised, _⟩ := stops a passed
      rw [raised] at here
      cases here
  · intro all
    have values := (mapM_not_bad_iff stops fails).mp notBad
    rw [takeWhile_eq_self_iff.mpr all] at values
    exact mapM_total values

/-- Flattening the passes over the parts of a list. -/
theorem mapM_flatMap {f : β → Except ε γ} {parts : α → List β} {items : List α} :
    (items.flatMap parts).mapM f = (items.mapM fun a => (parts a).mapM f).map flatten := by
  induction items with
  | nil => rfl
  | cons a rest ih =>
    rw [flatMap_cons, mapM_append, ih, mapM_cons]
    simp only [Except.bind_def, Except.pure_def]
    cases (parts a).mapM f with
    | error e => rfl
    | ok here => cases rest.mapM fun a => (parts a).mapM f <;> rfl

/-- Dropping the items whose values are dropped. -/
theorem mapM_filter_ok {f : α → Except ε β} {items : List α} {values : List β} {keep : α → Bool} {kept : β → Bool}
    (same : ∀ item ∈ items, ∀ value, f item = .ok value → kept value = keep item)
    (mapped : items.mapM f = .ok values) : (items.filter keep).mapM f = .ok (values.filter kept) := by
  have each := mapM_ok_iff.mp mapped
  clear mapped
  rw [mapM_ok_iff]
  induction each with
  | nil => exact .nil
  | @cons item value rest later here _ ih =>
    have agree := same item (mem_cons_self ..) value here
    have ih := ih fun other member => same other (mem_cons_of_mem _ member)
    cases keeps : keep item with
    | false => simpa [keeps, agree] using ih
    | true => simpa [keeps, agree, here] using ih

end List
