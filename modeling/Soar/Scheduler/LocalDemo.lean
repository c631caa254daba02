import Mathlib.Data.List.Sort
import Mathlib.Tactic.Linarith
import Soar.Scheduler.LocalScheduler

/-! One pass of the simulated scheduling loop in `local_demo.py`, and when it depends on no data of the future.
Times are exact rational numbers, where the code has doubles. A pass leaves out the guard of the loop, that some task
has data. -/
namespace Soar.Scheduler.LocalDemo

inductive ModelSize where
  | Full
  | Small
deriving DecidableEq

private theorem funext_size {f g : ModelSize → ℚ≥0} : f .Full = g .Full ∧ f .Small = g .Small ↔ f = g := by
  constructor
  · rintro ⟨hfull, hsmall⟩
    funext size
    cases size with
    | Full => exact hfull
    | Small => exact hsmall
  · rintro rfl
    exact ⟨rfl, rfl⟩

instance : DecidableEq (ModelSize → ℚ≥0) := fun _ _ => decidable_of_iff _ funext_size

structure TaskData where
  name : String
  createTime : ℚ
  deadline : ℚ
  runningTime : ModelSize → ℚ≥0
deriving DecidableEq

def timeSafeScalar : ℚ := 6 / 5

/-- A running time with its margin. -/
def TaskData.safeTime (d : TaskData) (size : ModelSize) : ℚ := d.runningTime size * timeSafeScalar

def TaskData.mostUrgentTime (d : TaskData) : ℚ := d.deadline

/-- The least deadline, `float('+inf')` of no data. -/
def earliest (data : List TaskData) : Time := (data.map fun d => (d.mostUrgentTime : Time)).foldr min ⊤

/-- `queue` holds the data of the whole simulation. -/
structure Task where
  name : String
  queue : List TaskData
  currentTime : ℚ := 0
deriving DecidableEq

namespace Task

variable (t : Task)

def dataQueue : List TaskData := t.queue.filter fun d => d.createTime ≤ t.currentTime

def setTime (time : ℚ) : Task := { t with currentTime := time }

def mostUrgentTime : Time := earliest t.dataQueue

/-- The head of the whole queue. -/
def front : Option TaskData := t.queue.head?

/-- The data are listed in order of creation time. -/
def InOrder : Prop := t.queue.Pairwise fun d e => d.createTime ≤ e.createTime

/-- What exists of a task. -/
def seen : String × List TaskData := (t.name, t.dataQueue)

end Task

/-- What a pass of the loop does, with the name of the task. -/
inductive Action where
  | wait
  | skip (task : String) (data : TaskData)
  | run (task : String) (data : TaskData) (size : ModelSize)
deriving DecidableEq

/-- `next_data`: the front of the next task, unless the second pending datum of the current task is more urgent. -/
def nextData (nextFront second : Option TaskData) : Option TaskData :=
  match nextFront, second with
  | none, second => second
  | some data, none => some data
  | some data, some second =>
    if second.mostUrgentTime < data.mostUrgentTime then some second else some data

/-- The model size of a datum that is not late by its full model. -/
def sizeBefore (now : ℚ) (data : TaskData) : Option TaskData → ModelSize
  | none => .Full
  | some next => if next.deadline < now + data.safeTime .Full + next.safeTime .Small then .Small else .Full

/-- What is done with the front of the current task. -/
def handle (now : ℚ) (task : String) (data : TaskData) (next : Option TaskData) : Action :=
  if data.deadline < now + data.safeTime .Small then .skip task data
  else if data.deadline < now + data.safeTime .Full then .run task data .Small
  else .run task data (sizeBefore now data next)

/-- The body of the loop once the two most urgent tasks are known; `none` is the error on a missing front. -/
def act (now : ℚ) (current next : Task) : Option Action :=
  if current.mostUrgentTime = ⊤ then some .wait
  else current.front.map fun data =>
    handle now current.name data (nextData next.front current.dataQueue[1]?)

/-- The tasks after `set_time`, sorted; equally urgent tasks keep their order. -/
def urgentFirst (now : ℚ) (tasks : List Task) : List Task :=
  (tasks.map fun t => t.setTime now).insertionSort fun t u => t.mostUrgentTime ≤ u.mostUrgentTime

/-- A pass with `model_variance`; `none` also for fewer than two tasks, which do not unpack. -/
def pass (now : ℚ) (tasks : List Task) : Option Action :=
  match urgentFirst now tasks with
  | current :: next :: _ => act now current next
  | _ => none

/-- Two workloads agree on the data created until `now`. -/
def SamePast (now : ℚ) (tasks tasks' : List Task) : Prop :=
  tasks.map (fun t => (t.setTime now).seen) = tasks'.map fun t => (t.setTime now).seen

/-- No workload with the same past makes the pass act in another way. -/
def Causal (now : ℚ) (tasks : List Task) : Prop :=
  ∀ tasks' : List Task, (∀ t ∈ tasks', t.InOrder) → SamePast now tasks tasks' → pass now tasks' = pass now tasks

/-- The front of the next task does not matter, or it exists. -/
def PastOnly (now : ℚ) (current next : Task) : Prop :=
  match current.dataQueue with
  | [] => True
  | data :: rest =>
    next.dataQueue ≠ [] ∨ data.deadline < now + data.safeTime .Small ∨ data.deadline < now + data.safeTime .Full ∨
      ∃ second ∈ rest.head?, second.deadline < now + data.safeTime .Full

theorem mostUrgentTime_eq_top_iff (t : Task) : t.mostUrgentTime = ⊤ ↔ t.dataQueue = [] := by
  rw [Task.mostUrgentTime]
  cases t.dataQueue with
  | nil => exact iff_of_true rfl rfl
  | cons d rest =>
    apply iff_of_false _ (List.cons_ne_nil d rest)
    intro htop
    exact WithTop.coe_ne_top (min_eq_top.mp htop).1

/-- In order of creation, the head of the queue exists as soon as anything does. -/
theorem front_of_dataQueue {t : Task} (horder : t.InOrder) {d : TaskData} {rest : List TaskData}
    (hpending : t.dataQueue = d :: rest) : t.front = some d := by
  unfold Task.dataQueue at hpending
  unfold Task.front
  unfold Task.InOrder at horder
  cases hqueue : t.queue with
  | nil =>
    rw [hqueue] at hpending
    exact absurd hpending (List.cons_ne_nil d rest).symm
  | cons e later =>
    rw [hqueue] at hpending horder
    by_cases he : e.createTime ≤ t.currentTime
    · rw [List.filter_cons, if_pos (decide_eq_true he)] at hpending
      rw [List.head?_cons, (List.cons.inj hpending).1]
    · have hd : d ∈ (e :: later).filter fun d => d.createTime ≤ t.currentTime := by
        rw [hpending]
        exact List.mem_cons_self
      have hexists := of_decide_eq_true (List.mem_filter.mp hd).2
      rcases List.mem_cons.mp (List.mem_filter.mp hd).1 with rfl | hlater
      · exact absurd hexists he
      · exact absurd ((List.rel_of_pairwise_cons horder hlater).trans hexists) he

/-- What the pass does with the pending data of the current task and the front of the next. -/
theorem act_eq {now : ℚ} {current : Task} (horder : current.InOrder) (next : Task) :
    act now current next = some (match current.dataQueue with
      | [] => .wait
      | data :: rest => handle now current.name data (nextData next.front rest.head?)) := by
  unfold act
  cases hpending : current.dataQueue with
  | nil => rw [if_pos ((mostUrgentTime_eq_top_iff current).mpr hpending)]
  | cons data rest =>
    have htop : current.mostUrgentTime ≠ ⊤ := by
      rw [Ne, mostUrgentTime_eq_top_iff, hpending]
      exact List.cons_ne_nil data rest
    rw [if_neg htop, front_of_dataQueue horder hpending, Option.map_some, List.getElem?_cons_succ,
      ← List.head?_eq_getElem?]

theorem inOrder_of_mem_urgentFirst {now : ℚ} {tasks : List Task} (horder : ∀ t ∈ tasks, t.InOrder) {t : Task}
    (ht : t ∈ urgentFirst now tasks) : t.InOrder := by
  obtain ⟨u, hu, rfl⟩ := List.mem_map.mp ((List.mem_insertionSort _).mp ht)
  exact horder u hu

/-- The order of the tasks depends on what is pending only. -/
theorem SamePast.urgentFirst {now : ℚ} {tasks tasks' : List Task} (h : SamePast now tasks tasks') :
    (urgentFirst now tasks).map Task.seen = (urgentFirst now tasks').map Task.seen := by
  have hsort (ts : List Task) : (LocalDemo.urgentFirst now ts).map Task.seen =
      (ts.map fun t => (t.setTime now).seen).insertionSort fun p q => earliest p.2 ≤ earliest q.2 := by
    refine (List.map_insertionSort _ _ Task.seen _ ?_).trans (congrArg _ List.map_map)
    intro t _ u _
    exact Iff.rfl
  rw [hsort, hsort]
  exact congrArg _ h

theorem handle_congr {now : ℚ} {task : String} {data : TaskData} {next next' : Option TaskData}
    (h : data.deadline < now + data.safeTime .Small ∨ data.deadline < now + data.safeTime .Full ∨
      sizeBefore now data next = sizeBefore now data next') :
    handle now task data next = handle now task data next' := by
  unfold handle
  rcases h with hsmall | hfull | hsize
  · rw [if_pos hsmall, if_pos hsmall]
  · rw [if_pos hfull, if_pos hfull]
  · rw [hsize]

/-- A second datum that leaves no time for the full model decides against it, whatever the next task has. -/
theorem sizeBefore_second {now : ℚ} {data second : TaskData} (h : second.deadline < now + data.safeTime .Full)
    (nextFront : Option TaskData) : sizeBefore now data (nextData nextFront (some second)) = .Small := by
  have hsmall (next : TaskData) (hnext : next.deadline ≤ second.deadline) :
      sizeBefore now data (some next) = .Small := by
    have hrun : 0 ≤ next.safeTime .Small := mul_nonneg (NNRat.cast_nonneg _) (by decide +kernel)
    exact if_pos (by linarith)
  cases nextFront with
  | none => exact hsmall second le_rfl
  | some next =>
    rw [nextData]
    split_ifs with hurgent
    · exact hsmall second le_rfl
    · exact hsmall next (not_lt.mp hurgent)

/-- Equal pasts are handled equally where the front of the next task does not matter. -/
theorem act_eq_of_seen {now : ℚ} {current next current' next' : Task} (hcurrent : current.seen = current'.seen)
    (hnext : next.seen = next'.seen) (horder : current.InOrder) (horder' : current'.InOrder) (hnextOrder : next.InOrder)
    (hnextOrder' : next'.InOrder) (hpast : PastOnly now current next) :
    act now current' next' = act now current next := by
  obtain ⟨hname, hdata⟩ := Prod.mk.inj hcurrent
  unfold PastOnly at hpast
  rw [act_eq horder, act_eq horder', ← hname, ← hdata]
  cases hpending : current.dataQueue with
  | nil => rfl
  | cons data rest =>
    rw [hpending] at hpast
    apply congrArg some
    apply handle_congr
    rcases hpast with hexists | hsmall | hfull | ⟨second, hsecond, hlate⟩
    · obtain ⟨d, later, hd⟩ := List.exists_cons_of_ne_nil hexists
      have hd' : next'.dataQueue = d :: later := (Prod.mk.inj hnext).2.symm.trans hd
      rw [front_of_dataQueue hnextOrder hd, front_of_dataQueue hnextOrder' hd']
      exact .inr (.inr rfl)
    · exact .inl hsmall
    · exact .inr (.inl hfull)
    · rw [Option.mem_def.mp hsecond, sizeBefore_second hlate, sizeBefore_second hlate]
      exact .inr (.inr rfl)

/-- Data that come later, given to the tasks with nothing pending. -/
def withFuture (later : List TaskData) (t : Task) : Task :=
  if t.dataQueue = [] then { t with queue := later } else t

theorem seen_withFuture {later : List TaskData} {t : Task} (hlater : ∀ d ∈ later, t.currentTime < d.createTime) :
    (withFuture later t).seen = t.seen := by
  unfold withFuture
  split_ifs with hidle
  · refine congrArg (Prod.mk t.name) (.trans ?_ hidle.symm)
    apply List.filter_eq_nil_iff.mpr
    intro d hd hexists
    exact absurd (of_decide_eq_true hexists) (hlater d hd).not_ge
  · rfl

theorem inOrder_withFuture {later : List TaskData} {t : Task}
    (hlater : later.Pairwise fun d e => d.createTime ≤ e.createTime) (horder : t.InOrder) :
    (withFuture later t).InOrder := by
  unfold withFuture
  split_ifs
  · exact hlater
  · exact horder

theorem setTime_withFuture {later : List TaskData} {now : ℚ} (t : Task) :
    (withFuture later (t.setTime now)).setTime now = withFuture later (t.setTime now) := by
  unfold withFuture
  split_ifs <;> rfl

/-- Later data leave the order of the tasks as it is. -/
theorem urgentFirst_withFuture {now : ℚ} {later : List TaskData} (hlater : ∀ d ∈ later, now < d.createTime)
    (tasks : List Task) : urgentFirst now (tasks.map fun t => withFuture later (t.setTime now)) =
      (urgentFirst now tasks).map (withFuture later) := by
  have hset : (tasks.map fun t => withFuture later (t.setTime now)).map (fun t => t.setTime now) =
      (tasks.map fun t => t.setTime now).map (withFuture later) := by
    rw [List.map_map, List.map_map]
    exact List.map_congr_left fun t _ => setTime_withFuture t
  have hurgent {t : Task} (ht : t ∈ tasks.map fun t => t.setTime now) :
      (withFuture later t).mostUrgentTime = t.mostUrgentTime := by
    obtain ⟨u, hu, rfl⟩ := List.mem_map.mp ht
    exact congrArg (fun p : String × List TaskData => earliest p.2) (seen_withFuture hlater)
  refine (congrArg _ hset).trans (List.map_insertionSort _ _ (withFuture later) _ ?_).symm
  intro t ht u hu
  rw [hurgent ht, hurgent hu]

/-- With time left for the full model before the second datum is due, a later front of the next task can make the pass
choose either size. -/
theorem exists_future {now : ℚ} {data : TaskData} {second : Option TaskData}
    (hsecond : ∀ s ∈ second, now + data.safeTime .Full ≤ s.deadline) (size : ModelSize) :
    ∃ d : TaskData, now < d.createTime ∧ sizeBefore now data (nextData (some d) second) = size := by
  -- the deadline is the latest one that the second datum does not displace
  obtain ⟨deadline, hdeadline, hkeep⟩ : ∃ deadline : ℚ, now + data.safeTime .Full ≤ deadline ∧
      ∀ d : TaskData, d.deadline = deadline → nextData (some d) second = some d := by
    cases second with
    | none => exact ⟨_, le_rfl, fun d _ => rfl⟩
    | some s =>
      refine ⟨s.deadline, hsecond s rfl, ?_⟩
      intro d hd
      exact if_neg hd.le.not_gt
  let future (time : ℚ≥0) : TaskData := ⟨"", now + 1, deadline, fun _ => time⟩
  cases size with
  | Full =>
    refine ⟨future 0, lt_add_one now, ?_⟩
    have htime : (future 0).safeTime .Small = 0 := zero_mul _
    rw [hkeep _ rfl]
    apply if_neg
    rw [htime, add_zero]
    exact hdeadline.not_gt
  | Small =>
    let slack : ℚ≥0 := ⟨deadline - (now + data.safeTime .Full) + 1, by linarith⟩
    refine ⟨future slack, lt_add_one now, ?_⟩
    have htime : (future slack).safeTime .Small = (deadline - (now + data.safeTime .Full) + 1) * (6 / 5) := rfl
    rw [hkeep _ rfl]
    apply if_pos
    rw [htime]
    show deadline < _
    linarith

private theorem exists_urgentFirst (now : ℚ) {tasks : List Task} (hlen : 2 ≤ tasks.length) :
    ∃ current next rest, urgentFirst now tasks = current :: next :: rest := by
  have hsorted : (urgentFirst now tasks).length = tasks.length :=
    (List.length_insertionSort _ _).trans (List.length_map _)
  rw [← hsorted] at hlen
  match urgentFirst now tasks, hlen with
  | current :: next :: rest, _ => exact ⟨current, next, rest, rfl⟩

theorem pass_of_urgentFirst {now : ℚ} {tasks rest : List Task} {current next : Task}
    (h : urgentFirst now tasks = current :: next :: rest) : pass now tasks = act now current next := by
  unfold pass
  rw [h]

section Future

variable {now : ℚ} {tasks rest : List Task} {current next : Task} {data : TaskData} {later : List TaskData}

/-- Data of the future do not belong to the past. -/
theorem samePast_withFuture (hlater : ∀ d ∈ later, now < d.createTime) (tasks : List Task) :
    SamePast now tasks (tasks.map fun t => withFuture later (t.setTime now)) := by
  unfold SamePast
  rw [List.map_map]
  apply List.map_congr_left
  intro t _
  exact (seen_withFuture hlater).symm.trans (congrArg Task.seen (setTime_withFuture t).symm)

/-- The pass reads a datum of the future as the front of a task with nothing pending. -/
theorem pass_withFuture {d : TaskData} (horder : current.InOrder)
    (htop : urgentFirst now tasks = current :: next :: rest)
    (hpending : current.dataQueue = data :: later) (hidle : next.dataQueue = [])
      (hcreate : ∀ e ∈ [d], now < e.createTime) :
    pass now (tasks.map fun t => withFuture [d] (t.setTime now)) =
      some (handle now current.name data (nextData (some d) later.head?)) := by
  have hcurrent : withFuture [d] current = current := by
    apply if_neg
    rw [hpending]
    exact List.cons_ne_nil data later
  have hnext : (withFuture [d] next).front = some d := by
    rw [withFuture, if_pos hidle]
    rfl
  have htop' := urgentFirst_withFuture hcreate tasks
  rw [htop, List.map_cons, List.map_cons, hcurrent] at htop'
  rw [pass_of_urgentFirst htop', act_eq horder, hpending, hnext]

/-- Where the front of the next task matters, data of the future decide the model size. -/
theorem not_causal (horder : ∀ t ∈ tasks, t.InOrder) (htop : urgentFirst now tasks = current :: next :: rest)
    (hpast : ¬PastOnly now current next) : ¬Causal now tasks := by
  intro hcausal
  unfold PastOnly at hpast
  cases hpending : current.dataQueue with
  | nil =>
    rw [hpending] at hpast
    exact hpast trivial
  | cons data later =>
    rw [hpending] at hpast
    simp only [not_or, not_exists, not_and, not_lt, ne_eq, not_not] at hpast
    obtain ⟨hidle, hsmall, hfull, hsecond⟩ := hpast
    have hchosen (size : ModelSize) : pass now tasks = some (.run current.name data size) := by
      obtain ⟨d, hcreate, hsize⟩ := exists_future hsecond size
      have hlater : ∀ e ∈ [d], now < e.createTime := by
        intro e he
        rw [List.mem_singleton.mp he]
        exact hcreate
      have horder' : ∀ t ∈ tasks.map fun t => withFuture [d] (t.setTime now), t.InOrder := by
        intro t ht
        obtain ⟨u, hu, rfl⟩ := List.mem_map.mp ht
        exact inOrder_withFuture (List.pairwise_singleton _ d) (horder u hu)
      have hcurrent := inOrder_of_mem_urgentFirst horder (htop ▸ List.mem_cons_self)
      rw [← hcausal _ horder' (samePast_withFuture hlater tasks), pass_withFuture hcurrent htop hpending hidle hlater,
        handle, if_neg hsmall.not_gt, if_neg hfull.not_gt, hsize]
    exact absurd ((hchosen .Full).symm.trans (hchosen .Small)) (by simp)

end Future

/-- A pass is independent of data not yet created exactly when nothing is pending, the second most urgent task has
pending data, the front of the first fails its deadline with either model, or its second datum forces the small one. -/
theorem pass_causal_iff (now : ℚ) (tasks : List Task) (hlen : 2 ≤ tasks.length) (horder : ∀ t ∈ tasks, t.InOrder) :
    Causal now tasks ↔ ∃ current next rest, urgentFirst now tasks = current :: next :: rest ∧
      PastOnly now current next := by
  constructor
  · intro hcausal
    obtain ⟨current, next, rest, htop⟩ := exists_urgentFirst now hlen
    refine ⟨current, next, rest, htop, ?_⟩
    by_contra hpast
    exact not_causal horder htop hpast hcausal
  · rintro ⟨current, next, rest, htop, hpast⟩ tasks' horder' hsame
    have hseen := hsame.urgentFirst
    rw [htop] at hseen
    obtain ⟨current', tail, htail, hcurrent, hnext⟩ := List.map_eq_cons_iff.mp hseen.symm
    obtain ⟨next', rest', rfl, hnext, -⟩ := List.map_eq_cons_iff.mp hnext
    rw [pass_of_urgentFirst htop, pass_of_urgentFirst htail]
    have hin {t : Task} (ht : t ∈ urgentFirst now tasks) := inOrder_of_mem_urgentFirst horder ht
    have hin' {t : Task} (ht : t ∈ urgentFirst now tasks') := inOrder_of_mem_urgentFirst horder' ht
    rw [htop] at hin
    rw [htail] at hin'
    exact act_eq_of_seen hcurrent.symm hnext.symm (hin List.mem_cons_self) (hin' List.mem_cons_self)
      (hin (List.mem_cons_of_mem _ List.mem_cons_self)) (hin' (List.mem_cons_of_mem _ List.mem_cons_self)) hpast

def lidarData : TaskData := ⟨"lidar0", 0, 100, fun size => if size = .Full then 50 else 20⟩
def lidar : Task := { name := "lidar", queue := [lidarData] }
def thermalData : TaskData := ⟨"thermal10", 10, 70, fun size => if size = .Full then 60 else 30⟩
def thermal : Task := { name := "thermal", queue := [thermalData] }

/-- Both tasks have data at 12 ms. -/
theorem pass_causal_iff_bothPending : 2 ≤ [lidar, thermal].length ∧ Causal 12 [lidar, thermal] := by
  refine ⟨le_rfl, (pass_causal_iff 12 [lidar, thermal] le_rfl ?_).mpr ?_⟩
  · intro t ht
    rcases List.mem_pair.mp ht with rfl | rfl
    · exact List.pairwise_singleton _ _
    · exact List.pairwise_singleton _ _
  · refine ⟨thermal.setTime 12, lidar.setTime 12, [], by decide +kernel, .inl ?_⟩
    decide +kernel

/-- Idle until time 10, the thermal task makes the lidar task run its small model at time 5. -/
theorem not_pass_causal_idleThermal : ¬∀ (now : ℚ) (tasks tasks' : List Task), 2 ≤ tasks.length →
    2 ≤ tasks'.length → (∀ t ∈ tasks, t.InOrder) → (∀ t ∈ tasks', t.InOrder) → SamePast now tasks tasks' →
      pass now tasks' = pass now tasks := by
  intro h
  let finished : Task := { name := "thermal", queue := [] }
  have hsame := h 5 [lidar, finished] [lidar, thermal] le_rfl le_rfl ?_ ?_ ?_
  · have hfull : pass 5 [lidar, finished] = some (.run "lidar" lidarData .Full) := by decide +kernel
    have hsmall : pass 5 [lidar, thermal] = some (.run "lidar" lidarData .Small) := by decide +kernel
    rw [hfull, hsmall] at hsame
    exact absurd hsame (by decide +kernel)
  · intro t ht
    rcases List.mem_pair.mp ht with rfl | rfl
    · exact List.pairwise_singleton _ _
    · exact List.Pairwise.nil
  · intro t ht
    rcases List.mem_pair.mp ht with rfl | rfl
    · exact List.pairwise_singleton _ _
    · exact List.pairwise_singleton _ _
  · unfold SamePast
    decide +kernel

end Soar.Scheduler.LocalDemo
