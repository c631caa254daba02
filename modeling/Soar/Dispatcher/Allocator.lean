import Mathlib.Data.List.Sort
import Mathlib.Order.WithBot
import Soar.Dispatcher.EdgeNode

/-! The allocator of the task dispatcher, with exact arithmetic; `none` is a raised exception. -/
namespace Soar.Dispatcher

/-- `/`, which raises on a zero divisor. -/
def divide (a b : ℚ) : Option ℚ := if b = 0 then none else some (a / b)

/-- `PriorityQueue.put`: entries in increasing order, where equal priorities compare the tasks
themselves and tasks that are not equal have no order. -/
def put (entry : Int × Task) : List (Int × Task) → Option (List (Int × Task))
  | [] => some [entry]
  | first :: rest =>
    if entry.1 < first.1 then some (entry :: first :: rest)
    else if first.1 < entry.1 ∨ first = entry then do return first :: (← put entry rest)
    else none

/-- `d[key]` of a `defaultdict`, created at the end when it is missing. -/
def updateKey {κ ν : Type} [DecidableEq κ] (default : ν) (f : ν → ν) (key : κ) : List (κ × ν) → List (κ × ν)
  | [] => [(key, f default)]
  | (k, v) :: rest => if k = key then (k, f v) :: rest else (k, v) :: updateKey default f key rest

/-- Task ids by sensor id by node name. -/
abbrev Deployment := List (String × List (Int × List Int))

structure Allocator where
  taskList : List Task
  candidates : List Task
  network : EdgeNodeNetwork
  bandwidthMap : Int × Int → Option ℚ
  deployQueue : List Deployment := []

/-- `__init__`, with the bandwidth map that `update_comm_time` reads. -/
def Allocator.create (taskList : List Task) (network : EdgeNodeNetwork) (bandwidthMap : Int × Int → Option ℚ) :
    Allocator where
  taskList := taskList
  candidates := taskList
  network := network
  bandwidthMap := bandwidthMap

def Allocator.getCommTime (a : Allocator) (srcId dstId : Int) (sensor : Sensor) : Option ℚ := do
  let bandwidth ← a.bandwidthMap (srcId, dstId)
  divide sensor.frameSize bandwidth

/-- `total_time` over the tasks of a node. -/
def sumTimes : List Task → ℚ → Option ℚ
  | [], totalTime => some totalTime
  | task :: tasks, totalTime => do
    let time ← task.optTime.head?
    sumTimes tasks (totalTime + task.fps * time)

/-- `execution` by task id, where a later task replaces an earlier one of its id. -/
def fillExecution (totalTime : ℚ) : List Task → (Int → Option ℚ) → Option (Int → Option ℚ)
  | [], execution => some execution
  | task :: tasks, execution => do
    let time ← divide totalTime task.fps
    fillExecution totalTime tasks (Function.update execution task.taskId (some time))

def getExecTime (node : EdgeNode) (task : Task) : Option (Int → Option ℚ) := do
  let tasks := node.tasklist ++ [task]
  let totalTime ← sumTimes tasks 0
  fillExecution totalTime tasks fun _ => none

/-- The tasks whose total delay meets their deadline, up to the first that does not, and
`temp_node` after them. -/
def countAllocated (execTime : Int → Option ℚ) (transTime : ℚ) (node : Int) :
    List Task → Nat → Option Int → Option (Nat × Option Int)
  | [], allocatedTaskNum, tempNode => some (allocatedTaskNum, tempNode)
  | t :: tasks, allocatedTaskNum, tempNode => do
    let totalDelay := (← execTime t.taskId) + transTime
    if totalDelay ≤ t.deadline then countAllocated execTime transTime node tasks (allocatedTaskNum + 1) (some node)
    else return (allocatedTaskNum, tempNode)

/-- The sum of `opt_time[0] / deadline`. -/
def getWorkload : List Task → Option ℚ
  | [] => some 0
  | t :: tasks => do
    let time ← t.optTime.head?
    let load ← divide time t.deadline
    let workload ← getWorkload tasks
    return load + workload

/-- The variables of the search, where nodes are named by their ids. -/
structure Search where
  currentNode : Option Int := none
  currentWorkload : WithTop ℚ := ⊤
  tempNode : Option Int := none
  tempWorkload : Option ℚ := none

/-- The choice between several nodes that can be selected. -/
def Search.keepLowest (s : Search) (workload : ℚ) : Search :=
  if (workload : WithTop ℚ) < s.currentWorkload then
    { s with tempWorkload := some workload, currentWorkload := workload, currentNode := s.tempNode }
  else { s with tempWorkload := some workload }

/-- The loop over the nodes, from the lowest communication delay to the highest. -/
def Allocator.search (a : Allocator) (transDelay : List (Int × ℚ)) (task : Task) : List Int → Search → Option Search
  | [], s => some s
  | i :: nodeOrder, s => do
    let node ← a.network.get i
    let transTime ← transDelay.lookup i
    if task.deadline < transTime then return s
    let execTime ← getExecTime node task
    let tasks := node.tasklist ++ [task]
    let (allocatedTaskNum, tempNode) ← countAllocated execTime transTime node.id tasks 0 s.tempNode
    if allocatedTaskNum = tasks.length then
      let workload ← getWorkload tasks
      a.search transDelay task nodeOrder ({ s with tempNode := tempNode }.keepLowest workload)
    else a.search transDelay task nodeOrder { s with tempNode := tempNode }

/-- `self.nodes[node_id].get_sensors[sensor_type][sensor_id]`. -/
def Allocator.getSensor (a : Allocator) (task : Task) : Option Sensor := do
  let source ← a.network.get task.nodeId
  source.getSensor task.dataSource task.sensorId

def Allocator.getTransDelay (a : Allocator) (task : Task) : Option (List (Int × ℚ)) := do
  let sensor ← a.getSensor task
  a.network.nodes.mapM fun dstNode => do return (dstNode.id, ← a.getCommTime task.nodeId dstNode.id sensor)

/-- The node that the loop over the nodes leaves in `current_node`. -/
def Allocator.findNode (a : Allocator) (task : Task) : Option (Option Int) := do
  let transDelay ← a.getTransDelay task
  let nodeOrder := (transDelay.insertionSort (·.2 ≤ ·.2)).map (·.1)
  let s ← a.search transDelay task nodeOrder {}
  return s.currentNode

/-- One task from the queue. -/
def Allocator.placeTask (a : Allocator) (task : Task) : Option Allocator := do
  match ← a.findNode task with
  | none => return a
  | some currentNode =>
    let a := { a with network := a.network.insertTask currentNode task }
    if task ∈ a.candidates then return { a with candidates := a.candidates.erase task } else none

def Allocator.placeTasks : List Task → Allocator → Option Allocator
  | [], a => some a
  | task :: tasks, a => do
    let a ← a.placeTask task
    Allocator.placeTasks tasks a

def nodename (id : Int) : String := "testbed-" ++ (if 0 ≤ id ∧ id < 10 then "0" else "") ++ toString id

def Allocator.deployedDict (a : Allocator) : Deployment :=
  a.network.nodes.foldl (fun dict node => node.tasklist.foldl (fun dict task =>
    updateKey [] (updateKey [] (· ++ [task.taskId]) task.sensorId) (nodename node.id) dict) dict) []

/-- `deploy_tasks`, which keeps the latest deployment only. -/
def Allocator.deployTasks (a : Allocator) : Allocator :=
  let queue := a.deployQueue ++ [a.deployedDict]
  { a with deployQueue := if 1 < queue.length then queue.tail else queue }

def orderTasks : List Task → List (Int × Task) → Option (List (Int × Task))
  | [], orderedQueue => some orderedQueue
  | task :: tasks, orderedQueue => do
    let orderedQueue ← put (task.priority, task) orderedQueue
    orderTasks tasks orderedQueue

def Allocator.allocate (a : Allocator) : Option Allocator := do
  let orderedQueue ← orderTasks a.candidates []
  let a ← Allocator.placeTasks (orderedQueue.map (·.2)) a
  return a.deployTasks

end Soar.Dispatcher
