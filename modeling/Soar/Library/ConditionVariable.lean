import Mathlib.Data.List.Basic

/-! A condition variable with its mutex: who holds the mutex and who sleeps until it is notified. -/
namespace Soar.Library

variable {Tid : Type}

structure Condition (Tid : Type) where
  holder : Option Tid := none
  waiting : List Tid := []

namespace Condition

/-- A process that sleeps, or finds the mutex taken, cannot take it. -/
def Free [DecidableEq Tid] (c : Condition Tid) (t : Tid) : Prop := c.holder = none ∧ t ∉ c.waiting

instance [DecidableEq Tid] (c : Condition Tid) (t : Tid) : Decidable (c.Free t) := by
  unfold Free
  infer_instance

def acquire (c : Condition Tid) (t : Tid) : Condition Tid := { c with holder := some t }

def release (c : Condition Tid) : Condition Tid := { c with holder := none }

/-- `wait`: gives the mutex back and sleeps, in one step. -/
def wait (c : Condition Tid) (t : Tid) : Condition Tid := { holder := none, waiting := c.waiting ++ [t] }

/-- `notify` wakes the process that has slept longest. -/
def notify (c : Condition Tid) : Condition Tid := { c with waiting := c.waiting.tail }

def notifyAll (c : Condition Tid) : Condition Tid := { c with waiting := [] }

section

variable (c : Condition Tid) (t : Tid)

@[simp] theorem acquire_holder : (c.acquire t).holder = some t := rfl
@[simp] theorem acquire_waiting : (c.acquire t).waiting = c.waiting := rfl
@[simp] theorem release_holder : c.release.holder = none := rfl
@[simp] theorem release_waiting : c.release.waiting = c.waiting := rfl
@[simp] theorem wait_holder : (c.wait t).holder = none := rfl
@[simp] theorem wait_waiting : (c.wait t).waiting = c.waiting ++ [t] := rfl
@[simp] theorem notify_holder : c.notify.holder = c.holder := rfl
@[simp] theorem notify_waiting : c.notify.waiting = c.waiting.tail := rfl
@[simp] theorem notifyAll_holder : c.notifyAll.holder = c.holder := rfl
@[simp] theorem notifyAll_waiting : c.notifyAll.waiting = [] := rfl

end

/-- The rule for a mutex: a step of the process `p` takes it and comes to hold it, gives it back and
ceases to, or does neither. -/
theorem holder_step {c c' : Condition Tid} {H H' : Tid → Prop} (h : ∀ q, c.holder = some q ↔ H q) (p : Tid)
    (hothers : ∀ q, q ≠ p → (H' q ↔ H q))
    (hp : (c'.holder = c.holder ∧ (H' p ↔ H p)) ∨ (c.holder = none ∧ c'.holder = some p ∧ H' p) ∨
      H p ∧ c'.holder = none ∧ ¬ H' p) (q : Tid) : c'.holder = some q ↔ H' q := by
  rcases hp with ⟨heq, hH⟩ | ⟨hnone, hsome, hH⟩ | ⟨hH, hnone, hH'⟩
  · rw [heq, h q]
    by_cases hq : q = p
    · rw [hq, hH]
    · exact (hothers q hq).symm
  · rw [hsome]
    by_cases hq : q = p
    · simp [hq, hH]
    · have hnot : ¬ H q := fun hHq => by
        have hq' := (h q).mpr hHq
        rw [hnone] at hq'
        cases hq'
      simp [Ne.symm hq, hothers q hq, hnot]
  · rw [hnone]
    by_cases hq : q = p
    · simp [hq, hH']
    · have hnot : ¬ H q := fun hHq => hq (Option.some.inj (((h q).mpr hHq).symm.trans ((h p).mpr hH)))
      simp [hothers q hq, hnot]

end Condition

end Soar.Library
