import Mathlib.Logic.Function.Basic
import Soar.Library.ConditionVariable
import Soar.Scheduler.LocalScheduler

/-! The scheduler and the model processes between `start_flag` and `end_flag`, one step for each
operation on what they share. -/
namespace Soar.Scheduler
open Soar.Library

/-- Variant `mv` of a task, and the process that `control.run` creates for it. -/
structure Model (n : Nat) where
  task : Fin n
  mv : Fin 2
deriving DecidableEq

namespace Model

variable {n : Nat} (m : Model n)

def mvFlag : Nat := m.mv + 1

/-- `thread_id` in `run_model_infer`. -/
def threadId : Nat := m.task * 2 + m.mvFlag - 1

/-- `selected_thread_id` in `local_scheduling`. -/
def selectedThreadId : Nat := m.task * 2 + m.mv

theorem selectedThreadId_eq : m.selectedThreadId = m.threadId := by
  unfold selectedThreadId threadId mvFlag
  omega

theorem threadId_inj {m m' : Model n} (h : m.threadId = m'.threadId) : m = m' := by
  obtain ⟨⟨task, htask⟩, ⟨mv, hmv⟩⟩ := m
  obtain ⟨⟨task', htask'⟩, ⟨mv', hmv'⟩⟩ := m'
  simp only [threadId, mvFlag] at h
  obtain rfl : task = task' := by omega
  obtain rfl : mv = mv' := by omega
  rfl

theorem threadId_surj {t : Nat} (ht : t < 2 * n) : ∃ m : Model n, m.threadId = t := by
  refine ⟨⟨⟨t / 2, by omega⟩, ⟨t % 2, by omega⟩⟩, ?_⟩
  simp only [threadId, mvFlag]
  omega

end Model

/-- The scheduler between two selections; `m` is the task and variant that it has selected. -/
inductive SchedulerPoint (n : Nat)
  | select
  | acquireStart (m : Model n)
  | setStart (m : Model n)
  | notifyStart (m : Model n)
  | releaseStart (m : Model n)
  | acquireEnd (m : Model n)
  | checkEnd (m : Model n)
  | sleepEnd (m : Model n)
  | awaitEnd (m : Model n)
  | clearEnd (m : Model n)
  | releaseEnd (m : Model n)
deriving DecidableEq

/-- A model process in its loop. -/
inductive InferPoint
  | acquireStart
  | checkStart
  | sleepStart
  | awaitStart
  | clearStart
  | releaseStart
  | readData
  | detect
  | acquireEnd
  | setEnd
  | notifyEnd
  | releaseEnd
deriving DecidableEq

inductive Party (n : Nat)
  | scheduler
  | infer (m : Model n)
deriving DecidableEq

/-- What happens to jobs, in order. `get m task` is a `get` of the process `m` on the queue of `task`. -/
inductive Event (n : Nat)
  | drop (task : Fin n)
  | dispatch (m : Model n)
  | consume (m : Model n)
  | get (m : Model n) (task : Fin n)
  | finish (m : Model n)
  | leave (m : Model n)
deriving DecidableEq

structure World (n : Nat) where
  startLock : Condition (Party n) := {}
  endLock : Condition (Party n) := {}
  startFlag : Nat → Bool := fun _ => false
  endFlag : Nat → Bool := fun _ => false
  scheduler : SchedulerPoint n := .select
  infer : Model n → InferPoint := fun _ => .acquireStart
  history : List (Event n) := []

/-- What a selection decides: nothing to do, drop the head of a queue, or run it. -/
inductive Decision (n : Nat)
  | idle
  | drop (task : Fin n)
  | run (m : Model n)

/-- Who takes the next step; a decision counts when the scheduler selects. -/
inductive Turn (n : Nat)
  | scheduler (decision : Decision n)
  | infer (m : Model n)

namespace World

variable {n : Nat} (w : World n)

def stepScheduler (decision : Decision n) : World n :=
  match w.scheduler with
  | .select =>
    match decision with
    | .idle => w
    | .drop task => { w with history := w.history ++ [.drop task] }
    | .run m => { w with scheduler := .acquireStart m, history := w.history ++ [.dispatch m] }
  | .acquireStart m =>
    if w.startLock.Free .scheduler then
      { w with startLock := w.startLock.acquire .scheduler, scheduler := .setStart m }
    else w
  | .setStart m =>
    { w with startFlag := Function.update w.startFlag m.selectedThreadId true, scheduler := .notifyStart m }
  | .notifyStart m => { w with startLock := w.startLock.notifyAll, scheduler := .releaseStart m }
  | .releaseStart m => { w with startLock := w.startLock.release, scheduler := .acquireEnd m }
  | .acquireEnd m =>
    if w.endLock.Free .scheduler then
      { w with endLock := w.endLock.acquire .scheduler, scheduler := .checkEnd m }
    else w
  | .checkEnd m => { w with scheduler := if w.endFlag m.selectedThreadId then .clearEnd m else .sleepEnd m }
  | .sleepEnd m => { w with endLock := w.endLock.wait .scheduler, scheduler := .awaitEnd m }
  | .awaitEnd m =>
    if w.endLock.Free .scheduler then
      { w with endLock := w.endLock.acquire .scheduler, scheduler := .checkEnd m }
    else w
  | .clearEnd m =>
    { w with endFlag := Function.update w.endFlag m.selectedThreadId false, scheduler := .releaseEnd m,
             history := w.history ++ [.leave m] }
  | .releaseEnd _ => { w with endLock := w.endLock.release, scheduler := .select }

/-- The state `w` with process `m` at the point `p`. -/
def goto (m : Model n) (p : InferPoint) : World n := { w with infer := Function.update w.infer m p }

def stepInfer (m : Model n) : World n :=
  match w.infer m with
  | .acquireStart =>
    if w.startLock.Free (.infer m) then
      goto { w with startLock := w.startLock.acquire (.infer m) } m .checkStart
    else w
  | .checkStart => w.goto m (if w.startFlag m.threadId then .clearStart else .sleepStart)
  | .sleepStart => goto { w with startLock := w.startLock.wait (.infer m) } m .awaitStart
  | .awaitStart =>
    if w.startLock.Free (.infer m) then
      goto { w with startLock := w.startLock.acquire (.infer m) } m .checkStart
    else w
  | .clearStart =>
    goto { w with startFlag := Function.update w.startFlag m.threadId false
                  history := w.history ++ [.consume m] } m .releaseStart
  | .releaseStart => goto { w with startLock := w.startLock.release } m .readData
  | .readData => goto { w with history := w.history ++ [.get m m.task] } m .detect
  | .detect => w.goto m .acquireEnd
  | .acquireEnd =>
    if w.endLock.Free (.infer m) then
      goto { w with endLock := w.endLock.acquire (.infer m) } m .setEnd
    else w
  | .setEnd =>
    goto { w with endFlag := Function.update w.endFlag m.threadId true
                  history := w.history ++ [.finish m] } m .notifyEnd
  | .notifyEnd => goto { w with endLock := w.endLock.notify } m .releaseEnd
  | .releaseEnd => goto { w with endLock := w.endLock.release } m .acquireStart

def step : Turn n → World n
  | .scheduler decision => w.stepScheduler decision
  | .infer m => w.stepInfer m

def run (schedule : List (Turn n)) : World n := schedule.foldl step w

end World

end Soar.Scheduler
