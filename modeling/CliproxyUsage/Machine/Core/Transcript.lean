import Mathlib.Data.List.Induction

/-! # Transcripts of a total machine

A machine that answers every input with an output, whatever its state. A transcript pairs the inputs
of a run with their outputs, so that what a run leaves behind can be related to what it reported.
-/

namespace Machine

variable {σ ε ω : Type*} (respond : σ → ε → σ × ω)

/-- The state after some inputs, and the transcript. -/
def transcript : σ → List ε → σ × List (ε × ω)
  | s, [] => (s, [])
  | s, e :: es => ((transcript (respond s e).1 es).1, (e, (respond s e).2) :: (transcript (respond s e).1 es).2)

variable {respond}

theorem transcript_append (s : σ) (first second : List ε) :
    transcript respond s (first ++ second) =
      ((transcript respond (transcript respond s first).1 second).1,
        (transcript respond s first).2 ++ (transcript respond (transcript respond s first).1 second).2) := by
  induction first generalizing s with
  | nil => rfl
  | cons e es ih => rw [List.cons_append, transcript, transcript, ih, List.cons_append]

/-- A relation between transcripts and states that the empty transcript satisfies and that every
response keeps holds of every run. -/
theorem transcript_invariant {s : σ} (P : List (ε × ω) → σ → Prop) (start : P [] s)
    (keep : ∀ past s e, P past s → P (past ++ [(e, (respond s e).2)]) (respond s e).1) (es : List ε) :
    P (transcript respond s es).2 (transcript respond s es).1 := by
  induction es using List.reverseRecOn with
  | nil => exact start
  | append_singleton es e ih =>
    rw [transcript_append]
    exact keep _ _ e ih

end Machine
