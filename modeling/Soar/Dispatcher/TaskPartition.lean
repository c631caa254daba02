import Soar.Dispatcher.Dictionary
import Soar.Dispatcher.GreedyChoice
import Soar.Dispatcher.PlacementRun

/-! Where the tasks of an allocation are: among the candidates, on the nodes, and in the deployed dictionary. -/
namespace Soar.Dispatcher

section Deployment

/-- The node name, sensor id and task id of each entry. -/
def sensorEntries (name : String) (dict : List (Int × List Int)) : List (String × Int × Int) :=
  dict.flatMap fun sensor => sensor.2.map fun taskId => (name, sensor.1, taskId)

def Deployment.entries (dict : Deployment) : List (String × Int × Int) :=
  dict.flatMap fun node => sensorEntries node.1 node.2

/-- What a deployment should say about the tasks of a node. -/
def EdgeNode.entries (node : EdgeNode) : List (String × Int × Int) :=
  node.tasklist.map fun task => (nodename node.id, task.sensorId, task.taskId)

theorem entries_updateKey (name : String) (sensorId taskId : Int) (dict : Deployment) :
    (Deployment.entries (updateKey [] (updateKey [] (· ++ [taskId]) sensorId) name dict)).Perm
      (dict.entries ++ [(name, sensorId, taskId)]) := by
  refine flatMap_updateKey_perm _ _ rfl (fun sensors => ?_) dict
  refine flatMap_updateKey_perm _ _ rfl (fun taskIds => ?_) sensors
  rw [List.map_append]
  exact List.Perm.refl _

private theorem entries_foldl_tasks (name : String) (tasks : List Task) (dict : Deployment) :
    (Deployment.entries (tasks.foldl (fun dict task =>
      updateKey [] (updateKey [] (· ++ [task.taskId]) task.sensorId) name dict) dict)).Perm
      (dict.entries ++ tasks.map fun task => (name, task.sensorId, task.taskId)) := by
  induction tasks generalizing dict with
  | nil => rw [List.foldl_nil, List.map_nil, List.append_nil]
  | cons task tasks ih =>
    rw [List.foldl_cons, List.map_cons, List.append_cons]
    exact (ih _).trans ((entries_updateKey ..).append_right _)

/-- The dictionary lists the tasks of all nodes, each once. -/
theorem Allocator.entries_deployedDict (a : Allocator) :
    a.deployedDict.entries.Perm (a.network.nodes.flatMap EdgeNode.entries) := by
  have hfold (nodes : List EdgeNode) (dict : Deployment) :
      (Deployment.entries (nodes.foldl (fun dict node => node.tasklist.foldl (fun dict task =>
        updateKey [] (updateKey [] (· ++ [task.taskId]) task.sensorId) (nodename node.id) dict) dict) dict)).Perm
        (dict.entries ++ nodes.flatMap EdgeNode.entries) := by
    induction nodes generalizing dict with
    | nil => rw [List.foldl_nil, List.flatMap_nil, List.append_nil]
    | cons node nodes ih =>
      rw [List.foldl_cons, List.flatMap_cons, ← List.append_assoc]
      exact (ih _).trans ((entries_foldl_tasks ..).append_right _)
  exact hfold a.network.nodes []

end Deployment

section Partition

/-- The tasks on the nodes. -/
def Allocator.held (a : Allocator) : List Task := a.network.nodes.flatMap (·.tasklist)

private theorem flatMap_insertTask_of_ne {nodes : List EdgeNode} {i : Int} (task : Task) (h : i ∉ nodes.map (·.id)) :
    (nodes.map fun node => if node.id = i then node.insertTask task else node).flatMap (·.tasklist) =
      nodes.flatMap (·.tasklist) := by
  have hsame : (nodes.map fun node => if node.id = i then node.insertTask task else node) = nodes := by
    refine (List.map_congr_left fun node hnode => if_neg ?_).trans (List.map_id _)
    rintro rfl
    exact h (List.mem_map_of_mem hnode)
  rw [hsame]

private theorem flatMap_insertTask {nodes : List EdgeNode} {n : EdgeNode} {task : Task} (hn : n ∈ nodes)
    (hids : (nodes.map (·.id)).Nodup) (hnew : ∀ m ∈ nodes, task ∉ m.tasklist) :
    ((nodes.map fun node => if node.id = n.id then node.insertTask task else node).flatMap (·.tasklist)).Perm
      (task :: nodes.flatMap (·.tasklist)) := by
  induction nodes with
  | nil => cases hn
  | cons m nodes ih =>
    rw [List.map_cons, List.nodup_cons] at hids
    rw [List.map_cons, List.flatMap_cons, List.flatMap_cons]
    obtain rfl | hn := List.mem_cons.mp hn
    · rw [flatMap_insertTask_of_ne task hids.1, if_pos rfl,
        EdgeNode.insertTask_tasklist (hnew n (List.mem_cons_self ..)), List.append_assoc]
      exact List.perm_middle
    · have hne : m.id ≠ n.id := fun heq => hids.1 (heq ▸ List.mem_map_of_mem hn)
      rw [if_neg hne]
      exact ((ih hn hids.2 fun m' hm' => hnew m' (List.mem_cons_of_mem _ hm')).append_left _).trans List.perm_middle

/-- Placing a task on a node that does not hold it adds it there. -/
theorem Allocator.held_placed {a : Allocator} {task : Task} {n : EdgeNode} (hn : n ∈ a.network.nodes)
    (hnew : task ∉ a.held) : (a.placed task n.id).held.Perm (task :: a.held) :=
  flatMap_insertTask hn a.network.nodup fun m hm hmem => hnew (List.mem_flatMap.mpr ⟨m, hm, hmem⟩)

/-- Each task of the allocation is a candidate or on a node, once. -/
def Allocator.Partitions (tasks : List Task) (a : Allocator) : Prop := (a.candidates ++ a.held).Perm tasks

/-- What one placement keeps. -/
theorem Allocator.Partitions.step {tasks : List Task} {a a' : Allocator} {task : Task} (hnodup : tasks.Nodup)
    (h : a.Partitions tasks) (hp : a.placeTask task = some a') : a'.Partitions tasks := by
  obtain rfl | ⟨n, hn, hcandidate, rfl⟩ := Allocator.placeTask_cases hp
  · exact h
  · have hnew : task ∉ a.held := by
      intro hmem
      exact (List.nodup_append.mp (h.nodup_iff.mpr hnodup)).2.2 task hcandidate task hmem rfl
    calc (a.candidates.erase task ++ (a.placed task n.id).held).Perm (a.candidates.erase task ++ task :: a.held) :=
          (Allocator.held_placed hn hnew).append_left _
      List.Perm _ (task :: a.candidates.erase task ++ a.held) := List.perm_middle
      List.Perm _ (a.candidates ++ a.held) := (List.perm_cons_erase hcandidate).symm.append_right _
      List.Perm _ tasks := h

/-- At first all tasks are candidates. -/
theorem Allocator.create_partitions {tasks : List Task} {network : EdgeNodeNetwork}
    {bandwidthMap : Int × Int → Option ℚ} (hempty : ∀ n ∈ network.nodes, n.tasklist = []) :
    (Allocator.create tasks network bandwidthMap).Partitions tasks := by
  have hheld : (Allocator.create tasks network bandwidthMap).held = [] := List.flatMap_eq_nil_iff.mpr hempty
  rw [Allocator.Partitions, hheld, List.append_nil]
  exact List.Perm.refl tasks

/-- The latest deployment is in the queue. -/
theorem Allocator.getLast?_deployTasks (a : Allocator) : a.deployTasks.deployQueue.getLast? = some a.deployedDict := by
  unfold Allocator.deployTasks
  cases a.deployQueue with
  | nil => rfl
  | cons old queue =>
    dsimp only
    split_ifs
    · exact List.getLast?_concat
    · exact List.getLast?_concat

theorem Allocator.ids_placeTasks {pending : List Task} {a a' : Allocator}
    (h : Allocator.placeTasks pending a = some a') : a'.network.nodes.map (·.id) = a.network.nodes.map (·.id) := by
  refine Allocator.placeTasks_inv (fun b => b.network.nodes.map (·.id) = a.network.nodes.map (·.id)) ?_ rfl h
  intro b task b' hb hp
  obtain rfl | ⟨n, -, -, rfl⟩ := Allocator.placeTask_cases hp
  · exact hb
  · rw [Allocator.ids_placed, hb]

end Partition

/-- `allocate` returns when its numbers can be divided by, and leaves each task in one place, as a candidate or
on a node, and the deployed dictionary lists the tasks of the nodes, each once. -/
theorem allocate_partitions {tasks : List Task} {network : EdgeNodeNetwork} {bandwidthMap : Int × Int → Option ℚ}
    (hempty : ∀ n ∈ network.nodes, n.tasklist = [])
    (hband : ∀ m ∈ network.nodes, ∀ n ∈ network.nodes, ∃ b, bandwidthMap (m.id, n.id) = some b ∧ 0 < b)
    (hpriorities : (tasks.map (·.priority)).Nodup) (hids : (tasks.map (·.taskId)).Nodup)
    (hsensors : ∀ t ∈ tasks, ((Allocator.create tasks network bandwidthMap).getSensor t).isSome) :
    ((∀ t ∈ tasks, t.Divisible) → ∃ a, (Allocator.create tasks network bandwidthMap).allocate = some a) ∧
      ∀ a, (Allocator.create tasks network bandwidthMap).allocate = some a →
        a.network.nodes.map (·.id) = network.nodes.map (·.id) ∧
        (a.candidates ++ a.network.nodes.flatMap (·.tasklist)).Perm tasks ∧
        (a.candidates ++ a.network.nodes.flatMap (·.tasklist)).Nodup ∧
        ∃ dict, a.deployQueue.getLast? = some dict ∧
          dict.entries.Perm (a.network.nodes.flatMap EdgeNode.entries) ∧ (dict.entries.map (·.2.2)).Nodup := by
  have hnodup : tasks.Nodup := List.Nodup.of_map _ hids
  rw [allocate_of_nodup hpriorities]
  constructor
  · intro hdivisible
    have hplaced : ∀ n ∈ network.nodes, ∀ t ∈ n.tasklist, t.Divisible := by
      intro n hn t ht
      rw [hempty n hn] at ht
      cases ht
    have hplaceable := Allocator.placeable_create hband hplaced (fun t ht _ => hdivisible t ht) hsensors
      (byPriority_perm tasks)
    obtain ⟨a, ha⟩ := hplaceable.placeTasks_returns
    exact ⟨a.deployTasks, by rw [ha]; rfl⟩
  · intro a ha
    obtain ⟨b, hb, rfl⟩ := Option.map_eq_some_iff.mp ha
    have hparts : b.Partitions tasks :=
      Allocator.placeTasks_inv (·.Partitions tasks) (fun _ _ _ h hp => h.step hnodup hp)
        (Allocator.create_partitions hempty) hb
    have hentries := b.entries_deployedDict
    refine ⟨Allocator.ids_placeTasks hb, hparts, hparts.nodup_iff.mpr hnodup, b.deployedDict,
      b.getLast?_deployTasks, hentries, ?_⟩
    have hheld : (b.network.nodes.flatMap EdgeNode.entries).map (·.2.2) = b.held.map (·.taskId) := by
      rw [List.map_flatMap, Allocator.held, List.map_flatMap]
      simp only [EdgeNode.entries, List.map_map]
      rfl
    rw [(hentries.map _).nodup_iff, hheld]
    have hmap := (hparts.map (·.taskId)).nodup_iff.mpr hids
    rw [List.map_append] at hmap
    exact (List.nodup_append.mp hmap).2.1

/-- Each of the two tasks is placed on a node of its own. -/
theorem allocate_partitions_withSpare :
    ∃ a, (Allocator.create [thermalTask, lidarTask] withSpare fun _ => some 100).allocate = some a ∧
      (a.candidates ++ a.network.nodes.flatMap (·.tasklist)).Perm [thermalTask, lidarTask] ∧
      (∃ dict, a.deployQueue.getLast? = some dict ∧
        dict.entries.Perm (a.network.nodes.flatMap EdgeNode.entries) ∧ (dict.entries.map (·.2.2)).Nodup) ∧
      a.network.nodes.map (·.tasklist) = [[lidarTask], [thermalTask]] := by
  have hposed : WellPosed [thermalTask, lidarTask] withSpare fun _ => some 100 :=
    wellPosed_lidarAndThermal (.inr rfl) (by decide) (by decide) (by decide)
  obtain ⟨hreturns, hparts⟩ :=
    allocate_partitions hposed.empty hposed.bandwidth_pos hposed.priorities hposed.taskIds hposed.sensors
  obtain ⟨a, ha⟩ := hreturns (by decide)
  obtain ⟨-, hperm, -, hdict⟩ := hparts a ha
  have hplaced : (Allocator.create [thermalTask, lidarTask] withSpare fun _ => some 100).allocate.map
      (fun a => a.network.nodes.map (·.tasklist)) = some [[lidarTask], [thermalTask]] := by
    decide +kernel
  rw [ha] at hplaced
  exact ⟨a, ha, hperm, hdict, Option.some.inj hplaced⟩

end Soar.Dispatcher
