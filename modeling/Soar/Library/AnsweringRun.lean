import Mathlib.Data.List.Basic

/-! Runs of a machine that answers every input or stops, and when one such machine answers as
another. -/
namespace Soar.Library

variable {State State' Input Answer : Type}

/-- The answers to the inputs in turn. -/
def answers (step : State → Input → Option (Answer × State)) : State → List Input → Option (List Answer)
  | _, [] => some []
  | s, i :: inputs =>
    match step s i with
    | none => none
    | some (a, s') => (answers step s' inputs).map (a :: ·)

theorem answers_cons_eq_some {step : State → Input → Option (Answer × State)} {s : State} {i : Input}
    {inputs : List Input} {as : List Answer} (h : answers step s (i :: inputs) = some as) :
    ∃ a s' rest, step s i = some (a, s') ∧ answers step s' inputs = some rest ∧ as = a :: rest := by
  rw [answers] at h
  cases hstep : step s i with
  | none =>
    rw [hstep] at h
    cases h
  | some r =>
    rw [hstep] at h
    obtain ⟨rest, hrest, rfl⟩ := Option.map_eq_some_iff.mp h
    exact ⟨r.1, r.2, rest, rfl, hrest, rfl⟩

/-- The rule of refinement: where the abstract machine answers, the concrete one gives the same answer and
the states remain related, unless it stops for the reason `Stop`. -/
theorem answers_refine {concrete : State → Input → Option (Answer × State)}
    {abstract : State' → Input → Option (Answer × State')} {R : State → State' → Prop} {P : Input → Prop} {Stop : Prop}
    (hstep : ∀ s t i a t', R s t → P i → abstract t i = some (a, t') →
      (∃ s', concrete s i = some (a, s') ∧ R s' t') ∨ concrete s i = none ∧ Stop)
    {inputs : List Input} (hinputs : ∀ i ∈ inputs, P i) {s : State} {t : State'} (h : R s t) {as : List Answer}
    (habstract : answers abstract t inputs = some as) :
    answers concrete s inputs = some as ∨ answers concrete s inputs = none ∧ Stop := by
  induction inputs generalizing s t as with
  | nil => exact .inl habstract
  | cons i inputs ih =>
    obtain ⟨a, t', rest, hi, hrest, rfl⟩ := answers_cons_eq_some habstract
    rcases hstep s t i a t' h (hinputs i (List.mem_cons_self ..)) hi with ⟨s', hs, h'⟩ | ⟨hs, hstop⟩
    · rw [answers, hs]
      rcases ih (fun j hj => hinputs j (List.mem_cons_of_mem i hj)) h' hrest with hsome | ⟨hnone, hstop⟩
      · exact .inl (congrArg (Option.map (a :: ·)) hsome)
      · exact .inr ⟨congrArg (Option.map (a :: ·)) hnone, hstop⟩
    · rw [answers, hs]
      exact .inr ⟨rfl, hstop⟩

end Soar.Library
