import Soar.Dispatcher.DeployedDict
import Soar.Node.DeployedApps

/-! Allocations in turn: the dispatcher deploys each of them, and the nodes apply their entries. -/
namespace Soar.Node
open Soar.Library

/-- An allocation, with ids that are no negative numbers, and the sensors of each node that
`ros2_monitor.py` starts after it. -/
structure Round where
  allocator : Dispatcher.Allocator
  natural : ∀ node ∈ allocator.network.nodes, ∀ task ∈ node.tasklist, 0 ≤ task.sensorId ∧ 0 ≤ task.taskId
  restarted : Int → List Nat

/-- `recv_dict`. -/
def unpickle (entries : List (Int × List Int)) : List (Nat × List Nat) :=
  entries.map fun entry => (entry.1.toNat, entry.2.map Int.toNat)

section Unpickle

variable {tasks : List Dispatcher.Task} (hnatural : ∀ task ∈ tasks, 0 ≤ task.sensorId ∧ 0 ≤ task.taskId)
include hnatural

private theorem nodup_unpickle : ((unpickle (Dispatcher.sensorTasks tasks)).map Prod.fst).Nodup := by
  have hkeys : (unpickle (Dispatcher.sensorTasks tasks)).map Prod.fst =
      ((Dispatcher.sensorTasks tasks).map Prod.fst).map Int.toNat := by
    rw [unpickle, List.map_map, List.map_map]
    rfl
  have hnonneg : ∀ key ∈ (Dispatcher.sensorTasks tasks).map Prod.fst, 0 ≤ key := by
    intro key hkey
    obtain ⟨task, htask, rfl⟩ := Dispatcher.mem_keys_sensorTasks.mp hkey
    exact (hnatural task htask).1
  rw [hkeys]
  refine List.Nodup.map_on (fun key hkey key' hkey' heq => ?_) (Dispatcher.nodup_sensorTasks tasks)
  have := hnonneg key hkey
  have := hnonneg key' hkey'
  omega

private theorem mem_keys_unpickle {key : Nat} :
    key ∈ (unpickle (Dispatcher.sensorTasks tasks)).map Prod.fst ↔ ∃ task ∈ tasks, task.sensorId = key := by
  have hkeys : key ∈ (unpickle (Dispatcher.sensorTasks tasks)).map Prod.fst ↔
      ∃ k ∈ (Dispatcher.sensorTasks tasks).map Prod.fst, k.toNat = key := by
    simp [unpickle]
  rw [hkeys]
  constructor
  · rintro ⟨k, hk, rfl⟩
    obtain ⟨task, htask, rfl⟩ := Dispatcher.mem_keys_sensorTasks.mp hk
    exact ⟨task, htask, (Int.toNat_of_nonneg (hnatural task htask).1).symm⟩
  · rintro ⟨task, htask, heq⟩
    exact ⟨_, Dispatcher.mem_keys_sensorTasks.mpr ⟨task, htask, rfl⟩, by omega⟩

private theorem mem_unpickle {taskId : Nat} :
    (∃ entry ∈ unpickle (Dispatcher.sensorTasks tasks), taskId ∈ entry.2) ↔ ∃ task ∈ tasks, task.taskId = taskId := by
  constructor
  · rintro ⟨_, hunpickled, hmem⟩
    obtain ⟨entry, hentry, rfl⟩ := List.mem_map.mp hunpickled
    obtain ⟨i, hi, rfl⟩ := List.mem_map.mp hmem
    obtain ⟨task, htask, rfl⟩ := Dispatcher.mem_sensorTasks.mp ⟨entry, hentry, hi⟩
    exact ⟨task, htask, (Int.toNat_of_nonneg (hnatural task htask).2).symm⟩
  · rintro ⟨task, htask, heq⟩
    obtain ⟨entry, hentry, hmem⟩ := Dispatcher.mem_sensorTasks.mpr ⟨task, htask, rfl⟩
    refine ⟨_, List.mem_map_of_mem hentry, List.mem_map.mpr ⟨task.taskId, hmem, ?_⟩⟩
    omega

end Unpickle

namespace Round

theorem nodup_entries (r : Round) {name : String} {entries : List (Int × List Int)}
    (h : r.allocator.deployedDict.lookup name = some entries) : ((unpickle entries).map Prod.fst).Nodup := by
  rw [r.allocator.lookup_deployedDict] at h
  split at h
  · rename_i node hfind
    split_ifs at h
    obtain rfl := Option.some.inj h
    exact nodup_unpickle (r.natural node (List.mem_of_find?_eq_some hfind))
  · cases h

/-- What `send_handler` sends to the node `id`, if it has an entry. -/
def received (r : Round) (id : Int) : Option Deployment :=
  match h : r.allocator.deployedDict.lookup (Dispatcher.nodename id) with
  | none => none
  | some entries => some ⟨unpickle entries, r.nodup_entries h⟩

/-- The node applies its entry; without one it does nothing. -/
def apply (r : Round) (w : Int → Directory) (id : Int) : Outcome × Directory :=
  match r.received id with
  | none => (.returned, w id)
  | some received => write2file received (w id)

/-- The directories of all nodes after the round. -/
def step (w : Int → Directory) (r : Round) : Int → Directory := fun id => run (r.restarted id) (r.apply w id).2

/-- Every node with an entry applies it without an error. -/
def NoError (r : Round) (w : Int → Directory) : Prop :=
  ∀ node ∈ r.allocator.network.nodes, (r.apply w node.id).1 = .returned

/-- On every node, what is deployed is what is allocated to it. -/
def Follows (r : Round) (w : Int → Directory) : Prop :=
  ∀ node ∈ r.allocator.network.nodes, ∀ taskId : Nat,
    (w node.id).Deployed taskId ↔ ∃ task ∈ node.tasklist, task.taskId = taskId

/-- What a sensor has that is without a task now is allocated to the node all the same. -/
def Covered (r : Round) (w : Int → Directory) : Prop :=
  ∀ node ∈ r.allocator.network.nodes, ∀ key taskId : Nat, (w node.id).DeployedAt key taskId →
    (∃ task ∈ node.tasklist, task.sensorId = key) ∨ ∃ task ∈ node.tasklist, task.taskId = taskId

variable {r : Round} {w : Int → Directory} {node : Dispatcher.EdgeNode}

/-- A node with tasks receives them by sensor, the others receive nothing. -/
theorem received_node (r : Round) (hnode : node ∈ r.allocator.network.nodes) :
    (r.received node.id).map Deployment.entries =
      if node.tasklist = [] then none else some (unpickle (Dispatcher.sensorTasks node.tasklist)) := by
  have hlookup := r.allocator.lookup_deployedDict_node hnode
  unfold received
  split
  · rename_i hnone
    rw [hlookup] at hnone
    split_ifs at hnone with htasks
    · rw [if_pos htasks]
      rfl
  · rename_i entries hsome
    rw [hlookup] at hsome
    split_ifs at hsome with htasks
    rw [if_neg htasks, Option.some.inj hsome]
    rfl

private theorem entries_received (hnode : node ∈ r.allocator.network.nodes) {received : Deployment}
    (hr : r.received node.id = some received) : received.entries = unpickle (Dispatcher.sensorTasks node.tasklist) := by
  have hreceived := r.received_node hnode
  rw [hr] at hreceived
  split_ifs at hreceived
  · cases hreceived
  · exact Option.some.inj hreceived

private theorem ini_step (hnode : node ∈ r.allocator.network.nodes) (hno : (r.apply w node.id).1 = .returned)
    {key : Nat}
    (hkey : ¬ ∃ task ∈ node.tasklist, task.sensorId = key) : (step w r node.id).ini key = (w node.id).ini key := by
  unfold step
  rw [run_ini]
  unfold apply at hno ⊢
  cases hr : r.received node.id with
  | none => rfl
  | some received =>
    rw [hr] at hno
    apply (write2file_returned hno).2 key
    rw [entries_received hnode hr, mem_keys_unpickle (r.natural node hnode)]
    exact hkey

-- what is allocated to the node, and what the sensors without a task had
private theorem deployed_step (hnode : node ∈ r.allocator.network.nodes) (hno : (r.apply w node.id).1 = .returned)
    (taskId : Nat) : (step w r node.id).Deployed taskId ↔ (∃ task ∈ node.tasklist, task.taskId = taskId) ∨
      ∃ key : Nat, (¬ ∃ task ∈ node.tasklist, task.sensorId = key) ∧ (w node.id).DeployedAt key taskId := by
  have hrun : (step w r node.id).Deployed taskId ↔ (r.apply w node.id).2.Deployed taskId := by
    unfold step Directory.Deployed Directory.DeployedAt
    rw [run_ini]
  have hreceived := r.received_node hnode
  rw [hrun]
  unfold apply at hno ⊢
  cases hr : r.received node.id with
  | none =>
    rw [hr] at hreceived
    have htasks : node.tasklist = [] := by
      by_contra htasks
      rw [if_neg htasks] at hreceived
      cases hreceived
    simp [htasks, Directory.Deployed]
  | some received =>
    rw [hr] at hno
    have hnatural := r.natural node hnode
    dsimp only at hno ⊢
    simp only [deployed_write2file hno, entries_received hnode hr, mem_unpickle hnatural, mem_keys_unpickle hnatural]

theorem follows_step_iff (hno : r.NoError w) : r.Follows (step w r) ↔ r.Covered w := by
  unfold Follows Covered
  apply forall₂_congr
  intro node hnode
  rw [forall_comm]
  apply forall_congr'
  intro taskId
  rw [deployed_step hnode (hno node hnode)]
  constructor
  · intro h key hdeployed
    by_cases htask : ∃ task ∈ node.tasklist, task.sensorId = key
    · exact .inl htask
    · exact .inr (h.mp (.inr ⟨key, htask, hdeployed⟩))
  · intro h
    refine ⟨fun hdeployed => hdeployed.elim id ?_, .inl⟩
    rintro ⟨key, htask, hdeployed⟩
    exact (h key hdeployed).resolve_left htask

end Round

/-- After every round the nodes follow the allocation exactly if, before every round, what a sensor has that
loses its tasks is among the tasks of its node all the same. -/
theorem allocation_followed_iff {w : Int → Directory} {rounds : List Round}
    (hno : AlongRun Round.step (fun w r => r.NoError w) w rounds) :
    AlongRun Round.step (fun w r => r.Follows (Round.step w r)) w rounds ↔
      AlongRun Round.step (fun w r => r.Covered w) w rounds :=
  hno.congr fun _ _ hno => Round.follows_step_iff hno

/-- A task of the sensor `sensorId`. -/
def taskOf (taskId sensorId : Nat) : Dispatcher.Task where
  taskId := taskId
  modelId := "image-yolov5s"
  dataSource := 1
  deadline := 1
  nodeId := 1
  sensorId := sensorId
  missBound := 0
  optBatch := 1
  optTime := [1]
  fps := 1
  priority := 1

/-- Tasks of the lidar and of the camera of node 1, on the nodes 1 and 2. -/
def twoNodes (first second : List Dispatcher.Task) : Dispatcher.Allocator where
  taskList := first ++ second
  candidates := []
  network :=
    { nodes := [{ id := 1, sensordict := [], tasklist := first }, { id := 2, sensordict := [], tasklist := second }]
      nodup := by simp }
  bandwidthMap := fun _ => none

def bothOnFirst : Round := ⟨twoNodes [taskOf 10101 10101, taskOf 10202 10201] [], by decide, fun _ => []⟩

def cameraOnSecond : Round := ⟨twoNodes [taskOf 10101 10101] [taskOf 10202 10201], by decide, fun _ => []⟩

/-- The sensors 10101 and 10201 without tasks, on both nodes. -/
def emptyNodes : Int → Directory := fun _ =>
  { ini := fun key => if key = 10101 ∨ key = 10201 then some ⟨strList [], []⟩ else none
    lock := fun _ => false
    unlock := fun _ => false
    json := [] }

def oneOnEach : Round := ⟨twoNodes [taskOf 10101 10101] [taskOf 10202 10201], by decide, fun _ => []⟩

/-- Other tasks of the same sensors. -/
def laterOnEach : Round := ⟨twoNodes [taskOf 10102 10101] [taskOf 10203 10201], by decide, fun _ => []⟩

private theorem not_deployedAt_emptyNodes (id : Int) (key taskId : Nat) : ¬ (emptyNodes id).DeployedAt key taskId := by
  rintro ⟨config, queue, hini, heval, hmem⟩
  obtain ⟨-, rfl⟩ : (key = 10101 ∨ key = 10201) ∧ config = ⟨strList [], []⟩ := by simpa [emptyNodes, eq_comm] using hini
  rw [evalList_strList] at heval
  cases heval
  cases hmem

/-- Two rounds with other tasks of the same two sensors. -/
theorem allocation_followed_iff_laterOnEach :
    AlongRun Round.step (fun w r => r.Follows (Round.step w r)) emptyNodes [oneOnEach, laterOnEach] := by
  have hfirst : oneOnEach.NoError emptyNodes := by
    unfold Round.NoError
    decide +kernel
  have hsecond : laterOnEach.NoError (Round.step emptyNodes oneOnEach) := by
    unfold Round.NoError
    decide +kernel
  have hcovered : laterOnEach.Covered (Round.step emptyNodes oneOnEach) := by
    intro node hnode key taskId hdeployed
    by_contra hnone
    rw [not_or] at hnone
    -- the tasks of the first round had the same sensors
    obtain ⟨node', hnode', hid, hsensors⟩ : ∃ node' ∈ oneOnEach.allocator.network.nodes, node'.id = node.id ∧
        ¬ ∃ task ∈ node'.tasklist, task.sensorId = key := by
      rcases List.mem_pair.mp hnode with rfl | rfl
      · exact ⟨_, List.mem_cons_self .., rfl, by simpa [taskOf] using hnone.1⟩
      · exact ⟨_, List.mem_cons_of_mem _ (List.mem_singleton_self _), rfl, by simpa [taskOf] using hnone.1⟩
    unfold Directory.DeployedAt at hdeployed
    rw [← hid, Round.ini_step hnode' (hfirst node' hnode') hsensors] at hdeployed
    exact not_deployedAt_emptyNodes _ key taskId hdeployed
  have hrun : AlongRun Round.step (fun w r => r.NoError w) emptyNodes [oneOnEach, laterOnEach] :=
    ⟨hfirst, hsecond, trivial⟩
  exact (allocation_followed_iff hrun).mpr
    ⟨fun node _ key taskId hdeployed => absurd hdeployed (not_deployedAt_emptyNodes _ key taskId), hcovered, trivial⟩

/-- The camera's task moves to node 2, and the entry of node 1 does not mention the camera any more. -/
theorem not_allocation_followed_cameraOnSecond :
    AlongRun Round.step (fun w r => r.NoError w) emptyNodes [bothOnFirst, cameraOnSecond] ∧
      ¬ AlongRun Round.step (fun w r => r.Follows (Round.step w r)) emptyNodes [bothOnFirst, cameraOnSecond] := by
  refine ⟨⟨?_, ?_, trivial⟩, fun h => ?_⟩
  · unfold Round.NoError
    decide +kernel
  · unfold Round.NoError
    decide +kernel
  · have hstale : (Round.step (Round.step emptyNodes bothOnFirst) cameraOnSecond 1).Unchanged (10201, [10202]) := by
      decide +kernel
    have hdeployed := hstale.deployedAt_iff.mpr (List.mem_singleton_self 10202)
    obtain ⟨task, htask, hid⟩ := (h.2.1 _ (List.mem_cons_self ..) 10202).mp ⟨10201, hdeployed⟩
    obtain rfl := List.mem_singleton.mp htask
    exact absurd hid (by decide)

end Soar.Node
