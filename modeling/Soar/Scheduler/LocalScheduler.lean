import Mathlib.Algebra.Order.Ring.Rat
import Mathlib.Data.List.FinRange
import Soar.Library.DoubleRounding
import Soar.Library.FirstLeast

/-! The selection of tasks and variants in `local_scheduler.py`. Times are doubles, and every sum and difference of them
is rounded as the source computes it. -/
namespace Soar.Scheduler
open Soar.Library

/-- `float("inf")` is the top of the times. -/
abbrev Time := WithTop ℚ

/-- `np.argmin`, with what numpy says of it: the index of the least entry, and of the first where several are least. -/
structure Argmin where
  index : List Time → Nat
  spec : ∀ times : List Time, times ≠ [] → ∃ least, FirstLeast (fun i time => times[i]? = some time) (index times) least

/-- The first of the least entries. -/
def Argmin.first : Argmin where
  index := firstLeast
  spec _ hne := firstLeast_spec hne

/-- The scheduler; `ddlAll` counts milliseconds, a profile has the execution times of both variants. -/
structure LocalScheduler where
  taskNum : Nat
  ddlAll : Nat → Int
  posttime : Nat → ℚ
  profiles : Nat → ℚ × ℚ
  taskIds : Nat → Int
  startTime : Nat → ℚ := fun _ => 0
  nextStartTime : Nat → ℚ := fun _ => 0
  selectedTask : Int := -1
  nextSelectedTask : Int := -1
  selectedTaskId : Int := -1
  nextRemainTime : Time := (0 : ℚ)

/-- The timestamps in the queue of each task, head first. -/
abbrev Queues := Nat → List ℚ

/-- `start_time` and `next_start_time` of a queue, as `size` and `gettime` give them. -/
def readTimes : List ℚ → ℚ × ℚ
  | [] => (0, 0)
  | [time] => (time, 0)
  | time :: next :: _ => (time, next)

namespace LocalScheduler

variable (argmin : Argmin) (s : LocalScheduler)

/-- The loop over the queues at the start of a selection. -/
def readQueues (queues : Queues) : LocalScheduler :=
  { s with
    startTime := fun i => if i < s.taskNum then (readTimes (queues i)).1 else s.startTime i
    nextStartTime := fun i => if i < s.taskNum then (readTimes (queues i)).2 else s.nextStartTime i }

def noneTimes (queues : Queues) : Nat := (List.range s.taskNum).countP fun i => (queues i).length = 0

/-- `self.ddl_all[i] / 1000.0`. -/
def ddl (i : Nat) : ℚ := double (double (s.ddlAll i) / 1000)

/-- The remaining time of a job of task `i` with the timestamp `time`. -/
def remainTime (i : Nat) (time curTime : ℚ) : ℚ := double (double (s.ddl i + time) - curTime)

def remainTimes (curTime : ℚ) : List Time :=
  (List.range s.taskNum).map fun i =>
    if s.startTime i = 0 then ⊤ else (s.remainTime i (s.startTime i) curTime : Time)

def select (task : Nat) : LocalScheduler := { s with selectedTask := task, selectedTaskId := s.taskIds task }

/-- `_select_model`. -/
def selectModel (queues : Queues) (curTime : ℚ) : LocalScheduler × Time :=
  let s' := s.readQueues queues
  if s.noneTimes queues = s.taskNum then (s', (-1 : ℚ))
  else
    let remainTimes := s'.remainTimes curTime
    let task := argmin.index remainTimes
    (s'.select task, remainTimes.getD task ⊤)

/-- The list of remaining times after the selected head has made way for the job behind it and
expired jobs have been taken out. -/
def nextRemainTimes (task : Nat) (curTime : ℚ) (remainTimes : List Time) : List Time :=
  let next : Time :=
    if s.nextStartTime task = 0 then ⊤ else (s.remainTime task (s.nextStartTime task) curTime : Time)
  (remainTimes.set task next).map fun time : Time => if time < (0 : ℚ) then ⊤ else time

/-- `next_selected_task` and `next_remain_time`. -/
def selectNext (nextRemainTimes : List Time) : LocalScheduler :=
  let next := argmin.index nextRemainTimes
  if nextRemainTimes.getD next ⊤ = ⊤ then { s with nextSelectedTask := -1 }
  else { s with nextSelectedTask := next, nextRemainTime := nextRemainTimes.getD next ⊤ }

/-- `_select_model4mv_backoff`, where `next_remain_times` and `remain_times` are one list. -/
def selectModelBackoff (queues : Queues) (curTime : ℚ) : LocalScheduler × Time :=
  let s' := s.readQueues queues
  if s.noneTimes queues = s.taskNum then (s', (-1 : ℚ))
  else
    let remainTimes := s'.remainTimes curTime
    let task := argmin.index remainTimes
    let s' := s'.select task
    if remainTimes.getD task ⊤ < (0 : ℚ) then (s', remainTimes.getD task ⊤)
    else
      let remainTimes := s'.nextRemainTimes task curTime remainTimes
      (s'.selectNext argmin remainTimes, remainTimes.getD task ⊤)

/-- `_select_model_variant_4backoff`: the smaller variant, if the full one is late or would make
the next job late. -/
def selectVariantBackoff (currentTime : ℚ) : Nat :=
  let task := s.selectedTask.toNat
  let originalExetime := (s.profiles task).1
  if double (double (currentTime + originalExetime) + s.posttime task) ≤ double (s.startTime task + s.ddl task) then
    if s.nextSelectedTask ≠ -1 then
      let nexttaskExetime :=
        if s.nextSelectedTask = s.selectedTask then originalExetime else (s.profiles s.nextSelectedTask.toNat).1
      if s.nextRemainTime < double (originalExetime + nexttaskExetime) then 1 else 0
    else 0
  else 1

end LocalScheduler

/-- What one iteration of `local_scheduling` does with the head of a queue. -/
inductive Outcome where
  | idle
  | dropped (task : Nat)
  | dispatched (task variant : Nat)
deriving DecidableEq

/-- The decisions of one iteration of `local_scheduling`, by its method 1. -/
def LocalScheduler.iteration (argmin : Argmin) (s : LocalScheduler) (queues : Queues) (curTime currentTime : ℚ) :
    LocalScheduler × Outcome :=
  let (s', nextFlag) := s.selectModelBackoff argmin queues curTime
  let task := s'.selectedTask.toNat
  if nextFlag = (-1 : ℚ) then (s', .idle)
  else if nextFlag.map (fun time => double (time - (s'.profiles task).2)) < (0 : ℚ) then (s', .dropped task)
  else (s', .dispatched task (s'.selectVariantBackoff currentTime))

end Soar.Scheduler
