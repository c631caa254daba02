import Mathlib.Data.List.Basic

/-! Runs of a step function, and invariants that hold where every step meets a condition. -/
namespace Soar.Library

variable {State Turn : Type}

/-- Every step of the run from `w` meets the condition `P`. -/
def AlongRun (step : State → Turn → State) (P : State → Turn → Prop) : State → List Turn → Prop
  | _, [] => True
  | w, t :: turns => P w t ∧ AlongRun step P (step w t) turns

instance AlongRun.decidable (step : State → Turn → State) (P : State → Turn → Prop) [∀ w t, Decidable (P w t)] :
    ∀ w turns, Decidable (AlongRun step P w turns)
  | _, [] => instDecidableTrue
  | w, t :: turns =>
    have := AlongRun.decidable step P (step w t) turns
    instDecidableAnd

/-- The rule for runs: what every step that meets the condition keeps, the run keeps. -/
theorem AlongRun.inv {step : State → Turn → State} {P : State → Turn → Prop} {Inv : State → Prop}
    (hstep : ∀ w t, Inv w → P w t → Inv (step w t)) {w : State} (hw : Inv w) {turns : List Turn}
    (h : AlongRun step P w turns) : Inv (turns.foldl step w) := by
  induction turns generalizing w with
  | nil => exact hw
  | cons t turns ih => exact ih (hstep w t hw h.1) h.2

variable {step : State → Turn → State} {P Q : State → Turn → Prop} {w : State} {turns : List Turn}

/-- A weaker condition holds along the run as well. -/
theorem AlongRun.mono (hPQ : ∀ w t, P w t → Q w t) (h : AlongRun step P w turns) : AlongRun step Q w turns := by
  induction turns generalizing w with
  | nil => trivial
  | cons t turns ih => exact ⟨hPQ w t h.1, ih h.2⟩

/-- Conditions that agree along the run. -/
theorem AlongRun.congr {R : State → Turn → Prop} (h : AlongRun step P w turns) (hQR : ∀ w t, P w t → (Q w t ↔ R w t)) :
    AlongRun step Q w turns ↔ AlongRun step R w turns := by
  induction turns generalizing w with
  | nil => rfl
  | cons t turns ih => exact and_congr (hQR w t h.1) (ih h.2)

/-- What an invariant and the condition give for each step. -/
theorem AlongRun.of_inv {Inv : State → Prop} (hstep : ∀ w t, Inv w → P w t → Inv (step w t))
    (hPQ : ∀ w t, Inv w → P w t → Q w t) (hw : Inv w) (h : AlongRun step P w turns) : AlongRun step Q w turns := by
  induction turns generalizing w with
  | nil => trivial
  | cons t turns ih => exact ⟨hPQ w t hw h.1, ih (hstep w t hw h.1) h.2⟩

theorem AlongRun.append {more : List Turn} (h : AlongRun step P w turns)
    (hmore : AlongRun step P (turns.foldl step w) more) : AlongRun step P w (turns ++ more) := by
  induction turns generalizing w with
  | nil => exact hmore
  | cons t turns ih => exact ⟨h.1, ih h.2 hmore⟩

theorem AlongRun.take (h : AlongRun step P w turns) (n : Nat) : AlongRun step P w (turns.take n) := by
  induction turns generalizing w n with
  | nil =>
    rw [List.take_nil]
    trivial
  | cons t turns ih =>
    cases n with
    | zero => trivial
    | succ n => exact ⟨h.1, ih h.2 n⟩

/-- A condition that a step meets if it leads to a good state. -/
theorem AlongRun.of_forall_take {Good : State → Prop} (hstep : ∀ w t, Good (step w t) → P w t)
    (h : ∀ n ≤ turns.length, Good ((turns.take n).foldl step w)) : AlongRun step P w turns := by
  induction turns generalizing w with
  | nil => trivial
  | cons t turns ih =>
    refine ⟨hstep w t (h 1 (Nat.succ_le_succ (Nat.zero_le _))), ih fun n hn => ?_⟩
    exact h (n + 1) (Nat.succ_le_succ hn)

/-- Where a step keeps `Good` exactly if it meets the condition, the runs in which every state is good are
those in which every step meets the condition. -/
theorem AlongRun.iff_forall_take {Inv Good : State → Prop} (hinv : ∀ w t, Inv w → Inv (step w t))
    (hstep : ∀ w t, Inv w → Good w → (Good (step w t) ↔ P w t)) (hw : Inv w) (hgood : Good w) :
    AlongRun step P w turns ↔ ∀ n ≤ turns.length, Good ((turns.take n).foldl step w) := by
  induction turns generalizing w with
  | nil =>
    apply iff_of_true trivial
    intro n _
    rw [List.take_nil]
    exact hgood
  | cons t turns ih =>
    constructor
    · rintro ⟨ht, hrest⟩ n hn
      cases n with
      | zero => exact hgood
      | succ n => exact (ih (hinv w t hw) ((hstep w t hw hgood).mpr ht)).mp hrest n (Nat.le_of_succ_le_succ hn)
    · intro h
      have hnext : Good (step w t) := h 1 (Nat.succ_le_succ (Nat.zero_le _))
      refine ⟨(hstep w t hw hgood).mp hnext, (ih (hinv w t hw) hnext).mpr fun n hn => ?_⟩
      exact h (n + 1) (Nat.succ_le_succ hn)

/-- Where a good step from the invariant meets the condition, and a step that meets it keeps the invariant, the
runs in which every state is good are those in which every step meets the condition. -/
theorem AlongRun.iff_forall_take_of_inv {Inv Good : State → Prop} (hinv : ∀ w t, Inv w → P w t → Inv (step w t))
    (hgood : ∀ w, Inv w → Good w) (hstep : ∀ w t, Inv w → Good (step w t) → P w t) (hw : Inv w) :
    AlongRun step P w turns ↔ ∀ n ≤ turns.length, Good ((turns.take n).foldl step w) := by
  constructor
  · intro h n _
    exact hgood _ ((h.take n).inv hinv hw)
  · intro h
    induction turns generalizing w with
    | nil => trivial
    | cons t turns ih =>
      have ht := hstep w t hw (h 1 (Nat.succ_le_succ (Nat.zero_le _)))
      exact ⟨ht, ih (hinv w t hw ht) fun n hn => h (n + 1) (Nat.succ_le_succ hn)⟩

/-- A number that grows by at most one in a step takes every value on its way up. -/
theorem AlongRun.exists_take_eq {f : State → Nat} {v : Nat}
    (h : AlongRun step (fun w t => f (step w t) ≤ f w + 1) w turns)
    (hle : f w ≤ v) (hge : v ≤ f (turns.foldl step w)) : ∃ n ≤ turns.length, f ((turns.take n).foldl step w) = v := by
  induction turns generalizing w with
  | nil => exact ⟨0, Nat.le_refl _, Nat.le_antisymm hle hge⟩
  | cons t turns ih =>
    by_cases hv : f w = v
    · exact ⟨0, Nat.zero_le _, hv⟩
    · have hstep := h.1
      obtain ⟨n, hn, heq⟩ := ih h.2 (by omega) hge
      exact ⟨n + 1, Nat.succ_le_succ hn, heq⟩

section Simulation

variable {State' Turn' : Type}

/-- The abstract turns of a run, where each turn is some abstract turns, or none. -/
def abstractTurns (step : State → Turn → State) (abstract : State → Turn → List Turn') : State → List Turn → List Turn'
  | _, [] => []
  | w, t :: turns => abstract w t ++ abstractTurns step abstract (step w t) turns

/-- The rule for simulations: where every step does to the abstract state what its abstract turns do, so does the run. -/
theorem AlongRun.simulates {abstract : State → Turn → List Turn'} {step' : State' → Turn' → State'}
    {toAbstract : State → State'} {Inv : State → Prop} (hstep : ∀ w t, Inv w → P w t → Inv (step w t))
    (hsimulates : ∀ w t, Inv w → P w t → toAbstract (step w t) = (abstract w t).foldl step' (toAbstract w))
    (hw : Inv w) (h : AlongRun step P w turns) :
    toAbstract (turns.foldl step w) = (abstractTurns step abstract w turns).foldl step' (toAbstract w) := by
  induction turns generalizing w with
  | nil => rfl
  | cons t turns ih =>
    rw [abstractTurns, List.foldl_append, ← hsimulates w t hw h.1]
    exact ih (hstep w t hw h.1) h.2

end Simulation

end Soar.Library
