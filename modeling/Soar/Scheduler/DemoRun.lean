import Mathlib.Algebra.Order.Archimedean.Basic
import Mathlib.Algebra.Order.Floor.Ring
import Mathlib.Data.Finset.Dedup
import Mathlib.Data.Finset.Order
import Mathlib.Data.Rat.Floor
import Soar.Library.AlongRun
import Soar.Library.Loops
import Soar.Scheduler.LocalDemo

/-! The simulation of `local_demo.py`: the data of a node, and the loop that runs or skips them until none is left. -/
namespace Soar.Scheduler.LocalDemo
open Soar.Library

/-- A task in the configuration of a node, with times in milliseconds. -/
structure TaskConfig where
  name : String
  startShift : Int
  period : Int
  deadline : Int
  execTime : ModelSize → ℚ≥0

/-- `range(start, stop, step)`; a step of zero is an error. -/
def range (start stop step : Int) : Option (List Int) :=
  if step = 0 then none
  else some ((List.range ⌈((stop - start : Int) : ℚ) / step⌉.toNat).map fun k : Nat => start + step * k)

/-- The task with all its data; `random k` is the draw for the datum `k`. -/
def TaskConfig.task (maxSimTime : Int) (config : TaskConfig) (random : Nat → ℚ) : Option Task :=
  (range config.startShift maxSimTime config.period).map fun times =>
    { name := config.name
      queue := times.mapIdx fun k (createTime : Int) =>
        { name := config.name ++ toString createTime
          createTime := createTime + random k * 2 - 1
          deadline := createTime + config.deadline
          runningTime := config.execTime } }

def tasksOf (maxSimTime : Int) (configs : List TaskConfig) (random : Nat → Nat → ℚ) : Option (List Task) :=
  configs.zipIdx.mapM fun (config, i) => config.task maxSimTime (random i)

namespace Task

variable (t : Task)

def keepSimulation : Bool := !t.queue.isEmpty

/-- `run` and `skip` both take the head of the whole queue. -/
def pop : Task := { t with queue := t.queue.tail }

end Task

/-- The pass with or without `model_variance`; without it every datum runs its full model. -/
def choose (modelVariance : Bool) (now : ℚ) (current next : Task) : Option Action :=
  if modelVariance then act now current next
  else if current.mostUrgentTime = ⊤ then some .wait
  else current.front.map fun data => .run current.name data .Full

/-- The sorted tasks with their places in the list of tasks. -/
def urgentRefs (now : ℚ) (tasks : List Task) : List (Task × Nat) :=
  (tasks.map fun t => t.setTime now).zipIdx.insertionSort fun t u => t.1.mostUrgentTime ≤ u.1.mostUrgentTime

/-- The datum that a pass takes. -/
def Action.data? : Action → Option TaskData
  | .wait => none
  | .skip _ data => some data
  | .run _ data _ => some data

structure Simulation where
  tasks : List Task
  dataSuccess : Nat := 0
  dataSkip : Nat := 0
  dataFail : Nat := 0
deriving DecidableEq

namespace Simulation

/-- The counters after the pass; `finish` is the time at which a run ends. -/
def count (s : Simulation) (finish : ℚ) : Action → Simulation
  | .wait => s
  | .skip _ _ => { s with dataSkip := s.dataSkip + 1 }
  | .run _ data _ =>
    if data.deadline < finish then { s with dataFail := s.dataFail + 1 }
    else { s with dataSuccess := s.dataSuccess + 1 }

/-- The tasks after the pass, whose current task is at `i`. -/
def taskAfter (tasks : List Task) (i : Nat) : Action → List Task
  | .wait => tasks
  | .skip _ _ => tasks.modify i Task.pop
  | .run _ _ _ => tasks.modify i Task.pop

/-- What a pass at `now` does, and the place of its current task. -/
def action (modelVariance : Bool) (now : ℚ) (s : Simulation) : Option (Action × Nat) :=
  match urgentRefs now s.tasks with
  | (current, i) :: (next, _) :: _ => (choose modelVariance now current next).map fun action => (action, i)
  | _ => none

/-- A turn of the loop: the clock shows the first time at its beginning and the second one after a run. The loop has
ended once no task has data; `none` is an error. -/
def step (modelVariance : Bool) (s : Simulation) (clock : ℚ × ℚ) : Option Simulation :=
  if s.tasks.any Task.keepSimulation then
    (s.action modelVariance clock.1).map fun (action, i) =>
      { s with tasks := taskAfter (s.tasks.map (Task.setTime · clock.1)) i action }.count clock.2 action
  else some s

/-- A turn where no earlier one was an error. -/
def turn (modelVariance : Bool) (o : Option Simulation) (clock : ℚ × ℚ) : Option Simulation :=
  o.bind fun s => s.step modelVariance clock

def run (modelVariance : Bool) (s : Simulation) (clocks : List (ℚ × ℚ)) : Option Simulation :=
  clocks.foldl (turn modelVariance) (some s)

def totalData (s : Simulation) : Nat := s.dataSuccess + s.dataSkip + s.dataFail

/-- The shares in the last line of the log; without data the division fails. -/
def shares (s : Simulation) : Option (ℚ × ℚ × ℚ) :=
  if s.totalData = 0 then none
  else some (s.dataSuccess / s.totalData, s.dataSkip / s.totalData, s.dataFail / s.totalData)

end Simulation

theorem urgentRefs_map_fst (now : ℚ) (tasks : List Task) :
    (urgentRefs now tasks).map Prod.fst = urgentFirst now tasks := by
  have hsort := List.map_insertionSort (fun t u : Task × Nat => t.1.mostUrgentTime ≤ u.1.mostUrgentTime)
    (fun t u : Task => t.mostUrgentTime ≤ u.mostUrgentTime) Prod.fst (tasks.map fun t => t.setTime now).zipIdx
    fun _ _ _ _ => Iff.rfl
  rw [urgentRefs, hsort, List.zipIdx_map_fst]
  rfl

/-- Every sorted task refers to the one at its place. -/
theorem getElem?_of_mem_urgentRefs {now : ℚ} {tasks : List Task} {t : Task} {i : Nat}
    (h : (t, i) ∈ urgentRefs now tasks) : ∃ u, tasks[i]? = some u ∧ u.setTime now = t := by
  have hmem := List.mem_zipIdx_iff_getElem?.mp ((List.mem_insertionSort _).mp h)
  rw [List.getElem?_map, Option.map_eq_some_iff] at hmem
  exact hmem

/-- No task is more urgent than the first of the sorted ones. -/
theorem urgentRefs_head_le {now : ℚ} {tasks : List Task} {t : Task} {i : Nat} {rest : List (Task × Nat)}
    (h : urgentRefs now tasks = (t, i) :: rest) {u : Task} (hu : u ∈ tasks) :
    t.mostUrgentTime ≤ (u.setTime now).mostUrgentTime := by
  let le (t u : Task × Nat) : Prop := t.1.mostUrgentTime ≤ u.1.mostUrgentTime
  have : Std.Total le := ⟨fun t u => le_total t.1.mostUrgentTime u.1.mostUrgentTime⟩
  have : IsTrans (Task × Nat) le := ⟨fun _ _ _ => le_trans⟩
  have hsorted : (urgentRefs now tasks).Pairwise le := List.pairwise_insertionSort le _
  have hmem : u.setTime now ∈ (urgentRefs now tasks).map Prod.fst := by
    rw [urgentRefs_map_fst]
    exact (List.mem_insertionSort _).mpr (List.mem_map_of_mem hu)
  obtain ⟨⟨v, j⟩, hv, hvu⟩ := List.mem_map.mp hmem
  rw [← hvu]
  rw [h] at hsorted hv
  rcases List.mem_cons.mp hv with heq | hrest
  · rw [(Prod.mk.inj heq).1]
  · exact List.rel_of_pairwise_cons hsorted hrest

/-- The datum of a pass is the head of the whole queue, if anything is pending. -/
theorem choose_data? {modelVariance : Bool} {now : ℚ} {current next : Task} {a : Action}
    (h : choose modelVariance now current next = some a) :
    (a = .wait ∧ current.dataQueue = []) ∨ ∃ data, current.front = some data ∧ current.dataQueue ≠ [] ∧
      ((modelVariance = true ∧ a = handle now current.name data (nextData next.front current.dataQueue[1]?)) ∨
        (modelVariance = false ∧ a = .run current.name data .Full)) := by
  unfold choose act at h
  by_cases htop : current.mostUrgentTime = ⊤
  · rw [if_pos htop, if_pos htop, ite_self] at h
    exact .inl ⟨(Option.some.inj h).symm, (mostUrgentTime_eq_top_iff current).mp htop⟩
  · rw [if_neg htop, if_neg htop] at h
    rw [mostUrgentTime_eq_top_iff] at htop
    cases modelVariance with
    | true =>
      obtain ⟨data, hfront, ha⟩ := Option.map_eq_some_iff.mp h
      exact .inr ⟨data, hfront, htop, .inl ⟨rfl, ha.symm⟩⟩
    | false =>
      obtain ⟨data, hfront, ha⟩ := Option.map_eq_some_iff.mp h
      exact .inr ⟨data, hfront, htop, .inr ⟨rfl, ha.symm⟩⟩

/-- With pending data the queue has a head. -/
theorem front_isSome {t : Task} (h : t.dataQueue ≠ []) : t.front.isSome := by
  cases hqueue : t.queue with
  | nil =>
    rw [Task.dataQueue, hqueue] at h
    exact absurd rfl h
  | cons data later => rw [Task.front, hqueue, List.head?_cons, Option.isSome_some]

/-- A pass raises nothing. -/
theorem choose_isSome (modelVariance : Bool) (now : ℚ) (current next : Task) :
    (choose modelVariance now current next).isSome := by
  unfold choose act
  by_cases htop : current.mostUrgentTime = ⊤
  · rw [if_pos htop, if_pos htop, ite_self, Option.isSome_some]
  · have hfront := front_isSome fun h => htop ((mostUrgentTime_eq_top_iff current).mpr h)
    rw [if_neg htop, if_neg htop]
    cases modelVariance with
    | true => exact Option.isSome_map.trans hfront
    | false => exact Option.isSome_map.trans hfront

@[simp] theorem handle_data? (now : ℚ) (task : String) (data : TaskData) (next : Option TaskData) :
    (handle now task data next).data? = some data := by
  unfold handle
  split_ifs <;> rfl

namespace Simulation

variable {modelVariance : Bool} {now : ℚ} {s s' : Simulation} {a : Action} {i : Nat}

/-- With at least two tasks no pass is an error. -/
theorem action_isSome (hlen : 2 ≤ s.tasks.length) (modelVariance : Bool) (now : ℚ) :
    (s.action modelVariance now).isSome := by
  have hrefs : (urgentRefs now s.tasks).length = s.tasks.length := by
    rw [urgentRefs, List.length_insertionSort, List.length_zipIdx, List.length_map]
  unfold action
  match h : urgentRefs now s.tasks with
  | [] =>
    rw [h, List.length_nil] at hrefs
    omega
  | [_] =>
    rw [h, List.length_singleton] at hrefs
    omega
  | (current, i) :: (next, _) :: _ => exact Option.isSome_map.trans (choose_isSome _ _ current next)

/-- The current task of a pass is a most urgent one, and the pass takes the head of its queue. -/
theorem action_spec (h : s.action modelVariance now = some (a, i)) :
    ∃ t, s.tasks[i]? = some t ∧
      (∀ u ∈ s.tasks, (t.setTime now).mostUrgentTime ≤ (u.setTime now).mostUrgentTime) ∧
      ((a = .wait ∧ (t.setTime now).dataQueue = []) ∨ ∃ data, t.front = some data ∧ (t.setTime now).dataQueue ≠ [] ∧
        ((modelVariance = true ∧ ∃ next, a = handle now t.name data next) ∨
          (modelVariance = false ∧ a = .run t.name data .Full))) := by
  unfold action at h
  match hrefs : urgentRefs now s.tasks with
  | [] =>
    rw [hrefs] at h
    cases h
  | [_] =>
    rw [hrefs] at h
    cases h
  | (current, j) :: (next, _) :: _ =>
    rw [hrefs] at h
    obtain ⟨a', hchoose, heq⟩ := Option.map_eq_some_iff.mp h
    obtain ⟨rfl, rfl⟩ := Prod.mk.inj heq
    have hmem : (current, j) ∈ urgentRefs now s.tasks := hrefs ▸ List.mem_cons_self
    obtain ⟨t, ht, rfl⟩ := getElem?_of_mem_urgentRefs hmem
    refine ⟨t, ht, fun u hu => urgentRefs_head_le hrefs hu, ?_⟩
    rcases choose_data? hchoose with hwait | ⟨data, hfront, hpending, hact⟩
    · exact .inl hwait
    · refine .inr ⟨data, hfront, hpending, ?_⟩
      rcases hact with ⟨hmv, ha⟩ | hact
      · exact .inl ⟨hmv, _, ha⟩
      · exact .inr hact

end Simulation

/-- The data of the tasks that no pass has taken. -/
def remaining (tasks : List Task) : Nat := (tasks.map fun t => t.queue.length).sum

/-- Each queue is the end of the one at the start. -/
def LeftOf (start tasks : List Task) : Prop := List.Forall₂ (fun t₀ t => t.queue <:+ t₀.queue) start tasks

namespace Simulation

/-- A simulation that came from the tasks `start`: every datum is left or counted. -/
structure Follows (start : List Task) (s : Simulation) : Prop where
  left : LeftOf start s.tasks
  counted : remaining s.tasks + s.totalData = remaining start

/-- No task has data: the loop ends. -/
def Ended (s : Simulation) : Prop := ∀ t ∈ s.tasks, t.queue = []

end Simulation

theorem remaining_setTime (now : ℚ) (tasks : List Task) :
    remaining (tasks.map (Task.setTime · now)) = remaining tasks := by
  rw [remaining, List.map_map]
  rfl

theorem remaining_pop {tasks : List Task} {i : Nat} {t : Task} {data : TaskData} (ht : tasks[i]? = some t)
    (hfront : t.front = some data) : remaining (tasks.modify i Task.pop) + 1 = remaining tasks := by
  induction tasks generalizing i with
  | nil => cases ht
  | cons u tasks ih =>
    cases i with
    | zero =>
      obtain rfl := Option.some.inj ht
      obtain ⟨later, hqueue⟩ := List.head?_eq_some_iff.mp hfront
      simp only [remaining, List.modify_zero_cons, List.map_cons, List.sum_cons, Task.pop, hqueue, List.tail_cons,
        List.length_cons]
      omega
    | succ i =>
      have hrest := ih ht
      simp only [remaining, List.modify_succ_cons, List.map_cons, List.sum_cons] at hrest ⊢
      omega

/-- Nothing remains if and only if every queue is empty. -/
theorem remaining_eq_zero_iff {tasks : List Task} : remaining tasks = 0 ↔ ∀ t ∈ tasks, t.queue = [] := by
  rw [remaining, List.sum_eq_zero_iff_forall_eq_nat]
  simp

theorem leftOf_refl (tasks : List Task) : LeftOf tasks tasks :=
  List.forall₂_same.mpr fun t _ => List.suffix_refl t.queue

theorem LeftOf.setTime {start tasks : List Task} (h : LeftOf start tasks) (now : ℚ) :
    LeftOf start (tasks.map (Task.setTime · now)) :=
  List.forall₂_map_right_iff.mpr h

theorem LeftOf.pop {start tasks : List Task} (h : LeftOf start tasks) (i : Nat) :
    LeftOf start (tasks.modify i Task.pop) := by
  induction h generalizing i with
  | nil =>
    rw [List.modify_nil]
    exact List.Forall₂.nil
  | cons hqueue hrest ih =>
    cases i with
    | zero => exact .cons ((List.tail_suffix _).trans hqueue) hrest
    | succ i => exact .cons hqueue (ih i)

/-- A task that is left has the end of the queue of a task at the start. -/
theorem LeftOf.exists_start {start tasks : List Task} (h : LeftOf start tasks) {t : Task} (ht : t ∈ tasks) :
    ∃ t₀ ∈ start, t.queue <:+ t₀.queue := by
  induction h with
  | nil => cases ht
  | cons hqueue _ ih =>
    rcases List.mem_cons.mp ht with rfl | hrest
    · exact ⟨_, List.mem_cons_self, hqueue⟩
    · obtain ⟨t₀, ht₀, hsuffix⟩ := ih hrest
      exact ⟨t₀, List.mem_cons_of_mem _ ht₀, hsuffix⟩

namespace Simulation

variable {modelVariance : Bool} {clock : ℚ × ℚ} {start : List Task} {s s' : Simulation} {a : Action} {i : Nat}

@[simp] theorem count_tasks (finish : ℚ) (a : Action) : (s.count finish a).tasks = s.tasks := by
  cases a with
  | wait => rfl
  | skip _ _ => rfl
  | run _ data _ => simp [count, apply_ite]

theorem count_totalData {data : TaskData} (finish : ℚ) (h : a.data? = some data) :
    (s.count finish a).totalData = s.totalData + 1 := by
  cases a with
  | wait => cases h
  | skip _ _ =>
    simp only [count, totalData]
    omega
  | run _ data _ =>
    rw [count]
    split_ifs
    · rfl
    · simp only [totalData]
      omega

/-- The three kinds of turns: after the end of the loop, with nothing pending, and with a datum that is taken. -/
theorem step_cases (h : s.step modelVariance clock = some s') :
    (s.Ended ∧ s' = s) ∨
    (¬ s.Ended ∧ (∀ t ∈ s.tasks, (t.setTime clock.1).dataQueue = []) ∧
      s' = { s with tasks := s.tasks.map (Task.setTime · clock.1) }) ∨
    ∃ a i t data, s.action modelVariance clock.1 = some (a, i) ∧ a.data? = some data ∧ s.tasks[i]? = some t ∧
      t.front = some data ∧
      s' = { s with tasks := (s.tasks.map (Task.setTime · clock.1)).modify i Task.pop }.count clock.2 a := by
  have hany : s.tasks.any Task.keepSimulation = true ↔ ¬ s.Ended := by simp [Ended, Task.keepSimulation]
  unfold step at h
  split_ifs at h with hkeep
  · rw [hany] at hkeep
    obtain ⟨⟨a, i⟩, haction, rfl⟩ := Option.map_eq_some_iff.mp h
    obtain ⟨t, ht, hleast, hcases⟩ := action_spec haction
    rcases hcases with ⟨rfl, hidle⟩ | ⟨data, hfront, -, hact⟩
    · refine .inr (.inl ⟨hkeep, ?_, rfl⟩)
      intro u hu
      rw [← mostUrgentTime_eq_top_iff, ← top_le_iff, ← (mostUrgentTime_eq_top_iff (t.setTime clock.1)).mpr hidle]
      exact hleast u hu
    · refine .inr (.inr ⟨a, i, t, data, haction, ?_, ht, hfront, ?_⟩)
      · rcases hact with ⟨-, next, rfl⟩ | ⟨-, rfl⟩
        · exact handle_data? _ _ _ _
        · rfl
      · have hafter : taskAfter (s.tasks.map (Task.setTime · clock.1)) i a =
            (s.tasks.map (Task.setTime · clock.1)).modify i Task.pop := by
          rcases hact with ⟨-, next, rfl⟩ | ⟨-, rfl⟩
          · unfold handle
            split_ifs <;> rfl
          · rfl
        dsimp only
        rw [hafter]
  · exact .inl ⟨not_not.mp fun hended => hkeep (hany.mpr hended), (Option.some.inj h).symm⟩

theorem follows_start (tasks : List Task) : Follows tasks { tasks := tasks } where
  left := leftOf_refl tasks
  counted := rfl

/-- What a turn leaves follows from the tasks at the start. -/
theorem Follows.step (h : Follows start s) (hstep : s.step modelVariance clock = some s') : Follows start s' := by
  rcases step_cases hstep with ⟨-, rfl⟩ | ⟨-, -, rfl⟩ | ⟨a, i, t, data, -, hdata, ht, hfront, rfl⟩
  · exact h
  · exact ⟨h.left.setTime _, (congrArg (· + s.totalData) (remaining_setTime _ _)).trans h.counted⟩
  · refine ⟨?_, ?_⟩
    · rw [count_tasks]
      exact (h.left.setTime _).pop i
    · have hset : (s.tasks.map (Task.setTime · clock.1))[i]? = some (t.setTime clock.1) := by
        rw [List.getElem?_map, ht, Option.map_some]
      have hpop := remaining_pop hset hfront
      rw [remaining_setTime] at hpop
      rw [count_tasks, count_totalData _ hdata, ← h.counted, ← hpop]
      simp only [totalData]
      omega

theorem Follows.length_eq (h : Follows start s) : s.tasks.length = start.length := h.left.length_eq.symm

/-- With at least two tasks a turn is no error. -/
theorem Follows.step_isSome (h : Follows start s) (hlen : 2 ≤ start.length) (modelVariance : Bool) (clock : ℚ × ℚ) :
    ∃ s', s.step modelVariance clock = some s' := by
  rw [← Option.isSome_iff_exists, Simulation.step]
  split_ifs
  · exact Option.isSome_map.trans (action_isSome (h.length_eq ▸ hlen) _ _)
  · rfl

end Simulation

/-! ### The end of the loop -/

namespace Simulation

variable {modelVariance : Bool} {start : List Task} {s s' : Simulation}

/-- The rule for runs: what every turn keeps, the run keeps. -/
theorem run_inv {Inv : Simulation → Prop}
    (hstep : ∀ s clock s', Inv s → s.step modelVariance clock = some s' → Inv s') (hs : Inv s)
    {clocks : List (ℚ × ℚ)} (hrun : s.run modelVariance clocks = some s') : Inv s' := by
  have hall : ∀ s' ∈ s.run modelVariance clocks, Inv s' := by
    refine List.foldlRecOn (motive := fun o => ∀ s' ∈ o, Inv s') clocks (turn modelVariance) ?_ ?_
    · intro s' hs'
      obtain rfl := Option.some.inj hs'
      exact hs
    · intro o ho clock _ s' hs'
      obtain ⟨s₁, hs₁, hnext⟩ := Option.bind_eq_some_iff.mp hs'
      exact hstep s₁ clock s' (ho s₁ hs₁) hnext
  exact hall s' hrun

/-- So does what a run leaves. -/
theorem Follows.run (h : Follows start s) {clocks : List (ℚ × ℚ)} (hrun : s.run modelVariance clocks = some s') :
    Follows start s' :=
  run_inv (fun _ _ _ h hstep => Follows.step h hstep) h hrun

/-- The simulation after `k` turns. -/
def after (modelVariance : Bool) (s : Simulation) (clock : ℕ → ℚ × ℚ) (k : Nat) : Option Simulation :=
  s.run modelVariance ((List.range k).map clock)

theorem after_succ (s : Simulation) (clock : ℕ → ℚ × ℚ) (k : Nat) :
    s.after modelVariance clock (k + 1) =
      (s.after modelVariance clock k).bind fun s => s.step modelVariance (clock k) := by
  rw [after, run, List.range_succ, List.map_append, List.foldl_append]
  rfl

variable {clock : ℕ → ℚ × ℚ}

theorem Follows.after (hlen : 2 ≤ start.length) (h : Follows start s) (k : Nat) :
    ∃ s', s.after modelVariance clock k = some s' ∧ Follows start s' := by
  induction k with
  | zero => exact ⟨s, rfl, h⟩
  | succ k ih =>
    obtain ⟨s₁, hs₁, h₁⟩ := ih
    obtain ⟨s₂, hs₂⟩ := h₁.step_isSome hlen modelVariance (clock k)
    refine ⟨s₂, ?_, h₁.step hs₂⟩
    rw [after_succ, hs₁, Option.bind_some, hs₂]

/-- No turn adds data. -/
theorem remaining_step_le (hstart : Follows start s) {clock : ℚ × ℚ} (hstep : s.step modelVariance clock = some s') :
    remaining s'.tasks ≤ remaining s.tasks := by
  have hcounted := hstart.counted.trans (hstart.step hstep).counted.symm
  have htotal : s.totalData ≤ s'.totalData := by
    rcases step_cases hstep with ⟨-, rfl⟩ | ⟨-, -, rfl⟩ | ⟨a, i, t, data, -, hdata, -, -, rfl⟩
    · exact le_rfl
    · exact le_rfl
    · rw [count_totalData _ hdata]
      exact Nat.le_succ _
  omega

/-- Once all data exist, every turn takes one. -/
theorem remaining_step_lt (hstart : Follows start s) {b : ℚ} (hb : ∀ t ∈ start, ∀ d ∈ t.queue, d.createTime ≤ b)
    {clock : ℚ × ℚ} (hlate : b ≤ clock.1) (hended : ¬ s.Ended) (hstep : s.step modelVariance clock = some s') :
    remaining s'.tasks < remaining s.tasks := by
  have hcounted := hstart.counted.trans (hstart.step hstep).counted.symm
  rcases step_cases hstep with ⟨hend, -⟩ | ⟨-, hidle, -⟩ | ⟨a, i, t, data, -, hdata, -, -, rfl⟩
  · exact absurd hend hended
  · refine absurd (fun t ht => ?_) hended
    obtain ⟨t₀, ht₀, hsuffix⟩ := hstart.left.exists_start ht
    rw [← hidle t ht]
    refine (List.filter_eq_self.mpr fun d hd => decide_eq_true ?_).symm
    exact (hb t₀ ht₀ d (hsuffix.subset hd)).trans hlate
  · rw [count_totalData _ hdata] at hcounted
    simp only [totalData] at hcounted ⊢
    omega

/-- Once it has ended, the loop changes nothing. -/
theorem step_of_ended (hended : s.Ended) (clock : ℚ × ℚ) : s.step modelVariance clock = some s := by
  apply if_neg
  simpa [Ended, Task.keepSimulation] using hended

theorem after_of_ended {k : Nat} (hs : s.after modelVariance clock k = some s') (hended : s'.Ended) :
    ∀ k' ≥ k, s.after modelVariance clock k' = some s' := by
  intro k' hk
  induction k', hk using Nat.le_induction with
  | base => exact hs
  | succ k' _ ih => rw [after_succ, ih, Option.bind_some, step_of_ended hended]

/-- The loop ends if the clock does not stand still; by induction on the data that are left. -/
theorem exists_ended (hlen : 2 ≤ start.length) (hstart : Follows start s)
    (hclock : ∀ b k, ∃ k' ≥ k, b ≤ (clock k').1) : ∃ k s', s.after modelVariance clock k = some s' ∧ s'.Ended := by
  obtain ⟨b, hb⟩ := ((start.flatMap Task.queue).map TaskData.createTime).toFinset.exists_le
  have hbound : ∀ t ∈ start, ∀ d ∈ t.queue, d.createTime ≤ b := by
    intro t ht d hd
    exact hb _ (List.mem_toFinset.mpr (List.mem_map_of_mem (List.mem_flatMap_of_mem ht hd)))
  suffices hall : ∀ n k s₁, s.after modelVariance clock k = some s₁ → remaining s₁.tasks = n →
      ∃ k s', s.after modelVariance clock k = some s' ∧ s'.Ended from hall _ 0 s rfl rfl
  intro n
  induction n using Nat.strong_induction_on with
  | _ n ih =>
    rintro k s₁ hs₁ rfl
    obtain ⟨k', hk, hlate⟩ := hclock b k
    have hmono : ∀ s', s.after modelVariance clock k' = some s' → remaining s'.tasks ≤ remaining s₁.tasks := by
      clear hlate
      induction k', hk using Nat.le_induction with
      | base =>
        intro s' hs'
        rw [Option.some.inj (hs'.symm.trans hs₁)]
      | succ k' _ ihk =>
        intro s' hs'
        rw [after_succ] at hs'
        obtain ⟨s₂, hs₂, hstep⟩ := Option.bind_eq_some_iff.mp hs'
        exact (remaining_step_le (hstart.run hs₂) hstep).trans (ihk s₂ hs₂)
    obtain ⟨s₂, hs₂, h₂⟩ : ∃ s₂, s.after modelVariance clock k' = some s₂ ∧ Follows start s₂ := hstart.after hlen k'
    by_cases hended : s₂.Ended
    · exact ⟨k', s₂, hs₂, hended⟩
    · obtain ⟨s₃, hs₃⟩ := h₂.step_isSome hlen modelVariance (clock k')
      have hlt := (remaining_step_lt h₂ hbound hlate hended hs₃).trans_le (hmono s₂ hs₂)
      refine ih _ hlt (k' + 1) s₃ ?_ rfl
      rw [after_succ, hs₂, Option.bind_some, hs₃]

/-- Without `model_variance` no datum is skipped. -/
theorem dataSkip_run (hs : s.dataSkip = 0) {clocks : List (ℚ × ℚ)} (hrun : s.run false clocks = some s') :
    s'.dataSkip = 0 := by
  refine @run_inv false s s' (fun s => s.dataSkip = 0) ?_ hs clocks hrun
  intro s clock s' hs hstep
  rcases step_cases hstep with ⟨-, rfl⟩ | ⟨-, -, rfl⟩ | ⟨a, i, t, data, haction, hdata, -, -, rfl⟩
  · exact hs
  · exact hs
  · obtain ⟨t', -, -, hcases⟩ := action_spec haction
    rcases hcases with ⟨rfl, -⟩ | ⟨data', -, -, hact⟩
    · cases hdata
    · rcases hact with ⟨hmv, -⟩ | ⟨-, rfl⟩
      · cases hmv
      · rw [count]
        split_ifs
        · exact hs
        · exact hs

end Simulation

/-- With at least two tasks and a clock that does not stand still the loop ends without an error, every datum counted
once; the last line of the log fails exactly where there was no datum at all. -/
theorem simulation_ends (tasks : List Task) (hlen : 2 ≤ tasks.length) (modelVariance : Bool) (clock : ℕ → ℚ × ℚ)
    (hclock : ∀ b k, ∃ k' ≥ k, b ≤ (clock k').1) :
    ∃ k s, (∀ k' ≥ k, Simulation.after modelVariance { tasks := tasks } clock k' = some s) ∧ s.Ended ∧
      s.totalData = remaining tasks ∧ (modelVariance = false → s.dataSkip = 0) ∧
      (s.shares = none ↔ ∀ t ∈ tasks, t.queue = []) := by
  have hstart := Simulation.follows_start tasks
  obtain ⟨k, s, hs, hended⟩ : ∃ k s, Simulation.after modelVariance { tasks := tasks } clock k = some s ∧ s.Ended :=
    Simulation.exists_ended hlen hstart hclock
  have hleft : remaining s.tasks = 0 := remaining_eq_zero_iff.mpr hended
  have hcounted := (hstart.run hs).counted
  rw [hleft, Nat.zero_add] at hcounted
  refine ⟨k, s, Simulation.after_of_ended hs hended, hended, hcounted, ?_, ?_⟩
  · rintro rfl
    exact Simulation.dataSkip_run rfl hs
  · rw [← remaining_eq_zero_iff, ← hcounted, Simulation.shares]
    by_cases hzero : s.totalData = 0
    · exact iff_of_true (if_pos hzero) hzero
    · rw [if_neg hzero]
      exact iff_of_false (Option.some_ne_none _) hzero

/-- Two tasks of one datum each, with a clock that shows the number of the turn. -/
theorem simulation_ends_lidarThermal : ∃ k s,
    (∀ k' ≥ k, Simulation.after true { tasks := [lidar, thermal] } (fun k => (k, k)) k' = some s) ∧ s.Ended ∧
      s.totalData = 2 := by
  obtain ⟨k, s, hs, hended, htotal, -⟩ := simulation_ends [lidar, thermal] le_rfl true (fun k => (k, k)) fun b k => by
    obtain ⟨n, hn⟩ := exists_nat_ge b
    exact ⟨max k n, le_max_left k n, hn.trans (Nat.cast_le.mpr (le_max_right k n))⟩
  exact ⟨k, s, hs, hended, htotal⟩

end Soar.Scheduler.LocalDemo
