import Mathlib.Algebra.Order.Ring.Rat
import Soar.Dispatcher.PlacementRun

/-! The allocation as a greedy choice over all nodes. -/
namespace Soar.Dispatcher
open Soar.Library

/-- The task list of each node, and the tasks that are still candidates. -/
structure Plan where
  lists : List (Int × List Task)
  candidates : List Task

def Allocator.plan (a : Allocator) : Plan where
  lists := a.network.nodes.map fun n => (n.id, n.tasklist)
  candidates := a.candidates

section Reference

variable (delay : Task → Int → ℚ)

/-- All tasks of the node and the new one meet their deadlines with the delay of the new one. -/
def Fits (task : Task) (node : Int × List Task) : Prop :=
  ∀ t ∈ node.2 ++ [task], totalTime (node.2 ++ [task]) / t.fps + delay task node.1 ≤ t.deadline

instance (task : Task) : DecidablePred (Fits delay task) := fun node => by
  unfold Fits
  infer_instance

/-- Of all nodes that the task fits on, the one of least workload with it, of least delay on ties,
the first of these. -/
def Plan.leastNode (p : Plan) (task : Task) : Option (Int × List Task) :=
  (p.lists.filter fun node => Fits delay task node).argmin fun node =>
    toLex (workload (node.2 ++ [task]), delay task node.1)

def Plan.assign (p : Plan) (task : Task) : Plan :=
  match p.leastNode delay task with
  | none => p
  | some node =>
    { lists := p.lists.map fun m => if m.1 = node.1 then (m.1, m.2 ++ [task]) else m
      candidates := p.candidates.erase task }

/-- The greedy allocation of the tasks to empty nodes, in increasing order of their priorities. -/
def greedy (tasks : List Task) (nodes : List Int) : Plan :=
  (byPriority tasks).foldl (Plan.assign delay) ⟨nodes.map (·, []), tasks⟩

end Reference

section Step

variable {a : Allocator} {task : Task} {rest : List Task}

private theorem Allocator.Ready.not_admits (h : a.Ready (task :: rest)) {n : EdgeNode} (hn : n ∈ a.network.nodes)
    (hstop : task.deadline < a.delay task n.id) : ¬ a.Admits task n := by
  intro hadmits
  have hmem : task ∈ n.tasklist ++ [task] := List.mem_append_right _ (List.mem_singleton_self task)
  have htime : 0 ≤ totalTime (n.tasklist ++ [task]) / task.fps :=
    div_nonneg (totalTime_nonneg (h.valid hn)) (h.valid hn task hmem).fps_pos.le
  exact absurd (hadmits task hmem) (hstop.trans_le (le_add_of_nonneg_left htime)).not_ge

/-- The search finds the node of the reference. -/
theorem Allocator.Ready.findNode_leastNode (h : a.Ready (task :: rest)) {found : Option Int}
    (hfound : a.findNode task = some found) : found = (a.plan.leastNode a.delay task).map (·.1) := by
  have hkeep : ∀ n ∈ a.network.nodes, task.deadline < a.delay task n.id → ¬ a.Admits task n :=
    fun n hn => h.not_admits hn
  have hup : ∀ m n : EdgeNode, a.delay task m.id ≤ a.delay task n.id →
      task.deadline < a.delay task m.id → task.deadline < a.delay task n.id := fun _ _ hle hlt => hlt.trans_le hle
  rw [h.findNode_eq hfound, scan_insertionSort hkeep hup]
  unfold Plan.leastNode Allocator.plan
  rw [List.filter_map, argmin_map, Option.map_map]
  rfl

/-- The placement of one task follows the reference. -/
theorem Allocator.Ready.plan_step {a' : Allocator} (h : a.Ready (task :: rest)) (hp : a.placeTask task = some a') :
    a'.plan = a.plan.assign a.delay task := by
  obtain ⟨found, hfound, -⟩ := Option.bind_eq_some_iff.mp hp
  rw [Allocator.placeTask_returns hfound h.mem, Option.some.injEq] at hp
  rw [← hp, h.findNode_leastNode hfound]
  unfold Plan.assign
  cases a.plan.leastNode a.delay task with
  | none => rfl
  | some node =>
    have hlists : (a.placed task node.1).network.nodes.map (fun n => (n.id, n.tasklist)) =
        (a.network.nodes.map fun n => (n.id, n.tasklist)).map fun m =>
          if m.1 = node.1 then (m.1, m.2 ++ [task]) else m := by
      unfold Allocator.placed EdgeNodeNetwork.insertTask
      rw [List.map_map, List.map_map]
      apply List.map_congr_left
      intro n hn
      simp only [Function.comp_apply]
      split_ifs
      · rw [EdgeNode.insertTask_id, EdgeNode.insertTask_tasklist (h.not_mem hn)]
      · rfl
    simp only [Option.map_some, Option.elim_some, Allocator.plan, hlists]
    rfl

private theorem Allocator.Ready.plan_run (h : a.Ready rest) {a' : Allocator}
    (hp : Allocator.placeTasks rest a = some a') : a'.plan = rest.foldl (Plan.assign a.delay) a.plan := by
  induction rest generalizing a with
  | nil =>
    cases hp
    rfl
  | cons task rest ih =>
    obtain ⟨b, hb, hp⟩ := Option.bind_eq_some_iff.mp hp
    obtain ⟨hready, hdelay⟩ := h.step hb
    rw [ih hready hp, h.plan_step hb, hdelay, List.foldl_cons]

end Step

section Order

variable {delay : Task → Int → ℚ}

private theorem Plan.assign_congr {p q : Plan} (hlists : p.lists = q.lists) (hperm : p.candidates.Perm q.candidates)
    (task : Task) : (p.assign delay task).lists = (q.assign delay task).lists ∧
      (p.assign delay task).candidates.Perm (q.assign delay task).candidates := by
  have hleast : p.leastNode delay task = q.leastNode delay task := by
    unfold Plan.leastNode
    rw [hlists]
  unfold Plan.assign
  rw [hleast]
  cases q.leastNode delay task with
  | none => exact ⟨hlists, hperm⟩
  | some node => exact ⟨by rw [hlists], hperm.erase task⟩

private theorem Plan.foldl_assign_congr (tasks : List Task) {p q : Plan} (hlists : p.lists = q.lists)
    (hperm : p.candidates.Perm q.candidates) :
    (tasks.foldl (Plan.assign delay) p).lists = (tasks.foldl (Plan.assign delay) q).lists ∧
      (tasks.foldl (Plan.assign delay) p).candidates.Perm (tasks.foldl (Plan.assign delay) q).candidates := by
  induction tasks generalizing p q with
  | nil => exact ⟨hlists, hperm⟩
  | cons task tasks ih =>
    obtain ⟨hlists', hperm'⟩ := Plan.assign_congr hlists hperm task
    exact ih hlists' hperm'

/-- The reference does not depend on the order in which the tasks are listed. -/
theorem greedy_perm {tasks tasks' : List Task} (hperm : tasks'.Perm tasks)
    (hpriorities : (tasks.map (·.priority)).Nodup) (nodes : List Int) :
    (greedy delay tasks' nodes).lists = (greedy delay tasks nodes).lists ∧
      (greedy delay tasks' nodes).candidates.Perm (greedy delay tasks nodes).candidates := by
  have hsorted : (byPriority tasks').Pairwise fun t u => t.priority < u.priority :=
    byPriority_pairwise_lt ((hperm.map _).nodup_iff.mpr hpriorities)
  have horder : byPriority tasks' = byPriority tasks :=
    eq_byPriority ((byPriority_perm tasks').trans hperm) hsorted
  unfold greedy
  rw [horder]
  exact Plan.foldl_assign_congr _ rfl hperm

end Order

private theorem WellPosed.perm {tasks tasks' : List Task} {network : EdgeNodeNetwork}
    {bandwidthMap : Int × Int → Option ℚ} (h : WellPosed tasks network bandwidthMap) (hperm : tasks'.Perm tasks) :
    WellPosed tasks' network bandwidthMap where
  empty := h.empty
  bandwidth_pos := h.bandwidth_pos
  priorities := (hperm.map _).nodup_iff.mpr h.priorities
  taskIds := (hperm.map _).nodup_iff.mpr h.taskIds
  valid := fun t ht => h.valid t (hperm.mem_iff.mp ht)
  sensors := fun t ht => h.sensors t (hperm.mem_iff.mp ht)

/-- The reference plan of the tasks, in the order of their priorities. -/
theorem WellPosed.plan_create {tasks : List Task} {network : EdgeNodeNetwork} {bandwidthMap : Int × Int → Option ℚ}
    (h : WellPosed tasks network bandwidthMap) :
    (Allocator.create tasks network bandwidthMap).plan = ⟨(network.nodes.map (·.id)).map (·, []), tasks⟩ := by
  unfold Allocator.plan Allocator.create
  rw [List.map_map]
  congr 1
  exact List.map_congr_left fun n hn => by rw [h.empty n hn]; rfl

private theorem allocate_eq_greedy {tasks : List Task} {network : EdgeNodeNetwork}
    {bandwidthMap : Int × Int → Option ℚ} (h : WellPosed tasks network bandwidthMap)
    (hdeadline : ∀ t ∈ tasks, 0 < t.deadline) :
    ∃ a, (Allocator.create tasks network bandwidthMap).allocate = some a ∧
      a.plan = greedy (Allocator.create tasks network bandwidthMap).delay tasks (network.nodes.map (·.id)) := by
  have hplaced : ∀ n ∈ network.nodes, ∀ t ∈ n.tasklist, t.Divisible := by
    intro n hn t ht
    rw [h.empty n hn] at ht
    exact absurd ht List.not_mem_nil
  have hplaceable := Allocator.placeable_create h.bandwidth_pos hplaced
    (fun t ht _ => (h.valid t ht).divisible (hdeadline t ht)) h.sensors (byPriority_perm tasks)
  obtain ⟨a, ha⟩ := hplaceable.placeTasks_returns
  have hplan := h.ready.plan_run ha
  refine ⟨a.deployTasks, by rw [allocate_eq h, ha]; rfl, ?_⟩
  rw [h.plan_create] at hplan
  exact hplan

/-- `allocate` gives the node lists and the remaining candidates of the greedy reference, in
whatever order the tasks are listed. -/
theorem allocate_greedy {tasks : List Task} {network : EdgeNodeNetwork} {bandwidthMap : Int × Int → Option ℚ}
    (h : WellPosed tasks network bandwidthMap) (hdeadline : ∀ t ∈ tasks, 0 < t.deadline) :
    ∃ a, (Allocator.create tasks network bandwidthMap).allocate = some a ∧
      a.plan = greedy (Allocator.create tasks network bandwidthMap).delay tasks (network.nodes.map (·.id)) ∧
      ∀ tasks', tasks'.Perm tasks → ∃ a', (Allocator.create tasks' network bandwidthMap).allocate = some a' ∧
        a'.plan.lists = a.plan.lists ∧ a'.plan.candidates.Perm a.plan.candidates := by
  obtain ⟨a, ha, hplan⟩ := allocate_eq_greedy h hdeadline
  refine ⟨a, ha, hplan, fun tasks' hperm => ?_⟩
  obtain ⟨a', ha', hplan'⟩ := allocate_eq_greedy (h.perm hperm) fun t ht => hdeadline t (hperm.mem_iff.mp ht)
  refine ⟨a', ha', ?_⟩
  rw [hplan, hplan']
  exact greedy_perm hperm h.priorities _

/-- A node with a lidar and a thermal camera. -/
def lidarNode : EdgeNode where
  id := 1
  sensordict := [(1, [(10101, ⟨"Lidar", 1, 400, 10, 1, 10101⟩)]), (3, [(10301, ⟨"Thermal", 3, 160, 20, 1, 10301⟩)])]

/-- This node alone. -/
def lidarAndThermal : EdgeNodeNetwork where
  nodes := [lidarNode]
  nodup := List.nodup_singleton 1

/-- With a second node that has no sensors. -/
def withSpare : EdgeNodeNetwork where
  nodes := [lidarNode, { id := 2, sensordict := [] }]
  nodup := by decide

def lidarTask : Task where
  taskId := 10101
  modelId := "pointpillars"
  dataSource := 1
  deadline := 7
  nodeId := 1
  sensorId := 10101
  missBound := 0
  optBatch := 1
  optTime := [2]
  fps := 1
  priority := 1

def thermalTask : Task :=
  { lidarTask with
    taskId := 10302, modelId := "yolo", dataSource := 3, sensorId := 10301, deadline := 10, priority := 2 }

/-- A lidar task after the thermal task, with two seconds more. -/
def lidarLast : Task := { lidarTask with deadline := 9, priority := 3 }

theorem wellPosed_lidarAndThermal {tasks : List Task} {network : EdgeNodeNetwork}
    (hnetwork : network = lidarAndThermal ∨ network = withSpare)
    (hmem : ∀ t ∈ tasks, t ∈ [lidarTask, thermalTask, lidarLast])
    (hpriorities : (tasks.map (·.priority)).Nodup) (hids : (tasks.map (·.taskId)).Nodup) :
    WellPosed tasks network fun _ => some 100 where
  empty := by
    rcases hnetwork with rfl | rfl
    · decide
    · decide
  bandwidth_pos := fun _ _ _ _ => ⟨100, rfl, by norm_num⟩
  priorities := hpriorities
  taskIds := hids
  valid := by
    have hvalid : ∀ t ∈ [lidarTask, thermalTask, lidarLast], 0 < t.fps ∧ t.optTime.head? = some 2 := by decide
    intro t ht
    obtain ⟨hfps, htime⟩ := hvalid t (hmem t ht)
    exact ⟨hfps, 2, htime, by decide⟩
  sensors := by
    have hsensors : ∀ t ∈ [lidarTask, thermalTask, lidarLast],
        ((Allocator.create [] network fun _ => some 100).getSensor t).isSome := by
      rcases hnetwork with rfl | rfl
      · decide
      · decide
    exact fun t ht => hsensors t (hmem t ht)

/-- The lidar task goes to the first of two equal nodes, and the thermal task to the other one. -/
theorem allocate_greedy_withSpare :
    ∃ a, (Allocator.create [thermalTask, lidarTask] withSpare fun _ => some 100).allocate = some a ∧
      a.plan = greedy (Allocator.create [thermalTask, lidarTask] withSpare fun _ => some 100).delay
        [thermalTask, lidarTask] [1, 2] ∧
      (∀ tasks', tasks'.Perm [thermalTask, lidarTask] →
        ∃ a', (Allocator.create tasks' withSpare fun _ => some 100).allocate = some a' ∧
          a'.plan.lists = a.plan.lists ∧ a'.plan.candidates.Perm a.plan.candidates) ∧
      a.plan.lists = [(1, [lidarTask]), (2, [thermalTask])] := by
  have hposed : WellPosed [thermalTask, lidarTask] withSpare fun _ => some 100 :=
    wellPosed_lidarAndThermal (.inr rfl) (by decide) (by decide) (by decide)
  obtain ⟨a, ha, hplan, hperm⟩ := allocate_greedy hposed (by decide)
  have hlists : (greedy (Allocator.create [thermalTask, lidarTask] withSpare fun _ => some 100).delay
      [thermalTask, lidarTask] (withSpare.nodes.map (·.id))).lists = [(1, [lidarTask]), (2, [thermalTask])] := by
    decide +kernel
  exact ⟨a, ha, hplan, hperm, (congrArg Plan.lists hplan).trans hlists⟩

end Soar.Dispatcher
