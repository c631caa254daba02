import Mathlib.Algebra.Field.Rat
import Mathlib.Algebra.Order.Ring.Unbundled.Rat
import Mathlib.Data.List.Nodup

/-! Tasks, sensors and the edge nodes that the task dispatcher places tasks on. -/
namespace Soar.Dispatcher

/-- A task as `DBReader` reads it; `opt_time` is read at its head only. -/
structure Task where
  taskId : Int
  modelId : String
  dataSource : Int
  deadline : ℚ
  nodeId : Int
  sensorId : Int
  missBound : ℚ
  optBatch : Int
  optTime : List ℚ
  fps : ℚ
  missWeight : Int := 1
  priority : Int
  lastDeploy : Option String := none
deriving DecidableEq

/-- A sensor, whose status gives its frame size and frame rate. -/
structure Sensor where
  name : String
  sensorType : Int
  frameSize : ℚ
  fps : ℚ
  position : Int
  sensorId : Int := -1
deriving DecidableEq

/-- An edge node with its sensors by type and id and its change tracking. -/
structure EdgeNode where
  id : Int
  sensordict : List (Int × List (Int × Sensor))
  tasklist : List Task := []
  lasttasklist : List Task := []
  updateFlag : Bool := false
deriving DecidableEq

/-- `get_sensors[sensor_type][sensor_id]`, which raises on a missing key. -/
def EdgeNode.getSensor (node : EdgeNode) (sensorType sensorId : Int) : Option Sensor := do
  let sensors ← node.sensordict.lookup sensorType
  sensors.lookup sensorId

/-- The first change since `is_changed` keeps the list as it was. -/
def EdgeNode.keepTasklist (node : EdgeNode) : EdgeNode :=
  if node.updateFlag then node else { node with lasttasklist := node.tasklist }

/-- `insert_task`, which leaves a task that is already in the list where it is. -/
def EdgeNode.insertTask (node : EdgeNode) (task : Task) : EdgeNode :=
  if task ∈ node.keepTasklist.tasklist then node.keepTasklist
  else { node.keepTasklist with updateFlag := true, tasklist := node.keepTasklist.tasklist ++ [task] }

@[simp] theorem EdgeNode.keepTasklist_id (node : EdgeNode) : node.keepTasklist.id = node.id := by
  unfold EdgeNode.keepTasklist
  split_ifs <;> rfl

@[simp] theorem EdgeNode.keepTasklist_sensordict (node : EdgeNode) :
    node.keepTasklist.sensordict = node.sensordict := by
  unfold EdgeNode.keepTasklist
  split_ifs <;> rfl

@[simp] theorem EdgeNode.keepTasklist_tasklist (node : EdgeNode) : node.keepTasklist.tasklist = node.tasklist := by
  unfold EdgeNode.keepTasklist
  split_ifs <;> rfl

@[simp] theorem EdgeNode.insertTask_id (node : EdgeNode) (task : Task) : (node.insertTask task).id = node.id := by
  unfold EdgeNode.insertTask
  split_ifs <;> simp

@[simp] theorem EdgeNode.insertTask_sensordict (node : EdgeNode) (task : Task) :
    (node.insertTask task).sensordict = node.sensordict := by
  unfold EdgeNode.insertTask
  split_ifs <;> simp

theorem EdgeNode.insertTask_tasklist {node : EdgeNode} {task : Task} (h : task ∉ node.tasklist) :
    (node.insertTask task).tasklist = node.tasklist ++ [task] := by
  unfold EdgeNode.insertTask
  rw [if_neg (by simpa using h)]
  simp

/-- The nodes of the network, a dictionary in insertion order whose keys are the ids. -/
structure EdgeNodeNetwork where
  nodes : List EdgeNode
  nodup : (nodes.map (·.id)).Nodup

/-- `self.nodes[id]`. -/
def EdgeNodeNetwork.get (network : EdgeNodeNetwork) (id : Int) : Option EdgeNode :=
  network.nodes.find? (·.id = id)

/-- The network after a change to the task list of the node `id`. -/
def EdgeNodeNetwork.insertTask (network : EdgeNodeNetwork) (id : Int) (task : Task) : EdgeNodeNetwork where
  nodes := network.nodes.map fun node => if node.id = id then node.insertTask task else node
  nodup := by
    have hids : (network.nodes.map fun node => if node.id = id then node.insertTask task else node).map (·.id) =
        network.nodes.map (·.id) := by
      rw [List.map_map]
      apply List.map_congr_left
      intro node _
      simp only [Function.comp_apply]
      split_ifs <;> simp
    exact hids ▸ network.nodup

theorem EdgeNodeNetwork.eq_of_id {network : EdgeNodeNetwork} {m n : EdgeNode} (hm : m ∈ network.nodes)
    (hn : n ∈ network.nodes) (h : m.id = n.id) : m = n :=
  List.inj_on_of_nodup_map network.nodup hm hn h

theorem EdgeNodeNetwork.get_id {network : EdgeNodeNetwork} {node : EdgeNode} (h : node ∈ network.nodes) :
    network.get node.id = some node := by
  have hsome : (network.get node.id).isSome := List.find?_isSome.mpr ⟨node, h, by simp⟩
  obtain ⟨m, hm⟩ := Option.isSome_iff_exists.mp hsome
  have hid : m.id = node.id := by simpa using List.find?_some hm
  rw [hm, network.eq_of_id (List.mem_of_find?_eq_some hm) h hid]

theorem EdgeNodeNetwork.get_insertTask {network : EdgeNodeNetwork} {id : Int} {task : Task} (i : Int) :
    (network.insertTask id task).get i =
      (network.get i).map fun node => if node.id = id then node.insertTask task else node := by
  simp only [EdgeNodeNetwork.get, EdgeNodeNetwork.insertTask, List.find?_map]
  congr 2
  funext node
  simp only [Function.comp_apply]
  split_ifs <;> simp

end Soar.Dispatcher
