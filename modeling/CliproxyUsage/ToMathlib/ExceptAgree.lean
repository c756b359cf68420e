import CliproxyUsage.ToMathlib.ExceptMap

/-! # Results of two computations that agree

Two computations on related inputs agree when their values relate wherever both return, and when, under a
condition on the inputs, they return or fail together. Agreement goes through sequences of such steps.
-/

namespace Except

variable {ε α β γ δ : Type} {total : Prop} {R : α → β → Prop} {S : γ → δ → Prop}

structure Agree (total : Prop) (R : α → β → Prop) (first : Except ε α) (second : Except ε β) : Prop where
  values : ∀ a b, first = .ok a → second = .ok b → R a b
  together : total → (∃ a b, first = .ok a ∧ second = .ok b) ∨ ∃ e, first = .error e ∧ second = .error e

theorem Agree.ok {a : α} {b : β} (related : R a b) : Agree total R (.ok a : Except ε α) (.ok b) where
  values := by
    rintro _ _ ⟨⟩ ⟨⟩
    exact related
  together _ := .inl ⟨a, b, rfl, rfl⟩

theorem Agree.error (e : ε) : Agree total R (.error e : Except ε α) (.error e : Except ε β) where
  values := by
    rintro _ _ ⟨⟩
  together _ := .inr ⟨e, rfl, rfl⟩

theorem Agree.refl (result : Except ε α) : Agree total (fun a b => a = b) result result where
  values := by
    rintro a b returned ⟨⟩
    exact (Except.ok.inj returned).symm
  together _ := by
    cases result with
    | ok a => exact .inl ⟨a, a, rfl, rfl⟩
    | error e => exact .inr ⟨e, rfl, rfl⟩

/-- Steps that agree on related values agree after computations that agree. -/
theorem Agree.bind {first : Except ε α} {second : Except ε β} {f : α → Except ε γ} {g : β → Except ε δ}
    (agree : Agree total R first second) (step : ∀ a b, R a b → Agree total S (f a) (g b)) :
    Agree total S (first.bind f) (second.bind g) where
  values c d left right := by
    obtain ⟨a, returned, left⟩ := bind_eq_ok.mp left
    obtain ⟨b, returned', right⟩ := bind_eq_ok.mp right
    exact (step a b (agree.values a b returned returned')).values c d left right
  together holds := by
    rcases agree.together holds with ⟨a, b, rfl, rfl⟩ | ⟨e, rfl, rfl⟩
    · exact (step a b (agree.values a b rfl rfl)).together holds
    · exact .inr ⟨e, rfl, rfl⟩

end Except
