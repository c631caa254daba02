import Soar.Computing.SharedMemory

/-! The generator of the sensor and application configurations, as far as ids and keys go. -/
namespace Soar.ConfigGen
open Soar.Computing

/-- `tasklists` of a sensor: a list, or a task on its own. -/
inductive Tasklists where
  | list (tasks : List Nat)
  | single (task : Nat)

def Tasklists.toList : Tasklists → List Nat
  | .list tasks => tasks
  | .single task => [task]

/-- The entry `sensor<number>` of a node; tasks are named `task<number>`. -/
structure SensorEntry where
  number : Nat
  sensortype : Nat
  tasklists : Tasklists

/-- The entry `node<number>` of the node allocation file. -/
structure NodeEntry where
  number : Nat
  name : String
  sensors : List SensorEntry

abbrev NodeAllocation := List NodeEntry

/-- One place in the lists of sensors that the generator builds side by side. -/
structure SensorRow where
  sensor : Nat
  position : String
  sensortype : Nat
  node : Nat
  numPerType : Nat

/-- One place in the lists of tasks. -/
structure TaskRow where
  task : Nat
  node : Nat
  sensor : Nat
  sensortype : Nat
deriving DecidableEq

/-- Lidars, cameras and all other sensors of a node so far. -/
structure Counters where
  lidar : Nat := 0
  camera : Nat := 0
  thermal : Nat := 0

/-- The counters after a sensor, and its number among those of its type. -/
def Counters.count (c : Counters) : Nat → Counters × Nat
  | 1 => ({ c with lidar := c.lidar + 1 }, c.lidar + 1)
  | 2 => ({ c with camera := c.camera + 1 }, c.camera + 1)
  | _ => ({ c with thermal := c.thermal + 1 }, c.thermal + 1)

def NodeEntry.taskRows (node : NodeEntry) (sensor : SensorEntry) : List TaskRow :=
  sensor.tasklists.toList.map fun task =>
    { task := task, node := node.number, sensor := sensor.number, sensortype := sensor.sensortype }

def NodeEntry.collect (node : NodeEntry) : List SensorEntry → Counters → List SensorRow × List TaskRow
  | [], _ => ([], [])
  | sensor :: sensors, counters =>
    let (counters, numPerType) := counters.count sensor.sensortype
    let (sensorRows, taskRows) := node.collect sensors counters
    ({ sensor := sensor.number, position := node.name, sensortype := sensor.sensortype, node := node.number,
       numPerType := numPerType } :: sensorRows, node.taskRows sensor ++ taskRows)

def collect : NodeAllocation → List SensorRow × List TaskRow
  | [] => ([], [])
  | node :: nodes =>
    let (sensorRows, taskRows) := node.collect node.sensors {}
    let (sensorRows', taskRows') := collect nodes
    (sensorRows ++ sensorRows', taskRows ++ taskRows')

/-- `sensor<sensor_id>.ini`; `start` is a text there. -/
structure SensorConfig where
  sensorId : Nat
  position : String
  start : Bytes

def SensorRow.sensorId (row : SensorRow) : Nat := row.node * 10000 + row.sensortype * 100 + row.numPerType

def SensorRow.start (row : SensorRow) : Nat := row.sensor * 1000

/-- A type without a template raises. -/
def SensorRow.config (row : SensorRow) : Option SensorConfig :=
  if row.sensortype ∈ [1, 2, 3] then
    some { sensorId := row.sensorId, position := row.position, start := str row.start }
  else none

/-- `prioprity`: the place of each task in the order that `argsort` gives to the deadlines. -/
def prioprity (deadline prioprityIndex : List Nat) : Option (List Nat) :=
  (List.range deadline.length).mapM fun index =>
    if index ∈ prioprityIndex then some (prioprityIndex.idxOf index + 1) else none

/-- `app<appid>.ini`, with the keys as texts. -/
structure AppConfig where
  appid : Bytes
  deadline : Nat
  priority : Nat
  sensorid : Nat
  nodeid : Nat
  sensortype : Nat
  sensorStart : Bytes
  preMsgkey : Bytes
  preStart : Bytes
  inferMsgkey : Bytes
  inferStart : Bytes
  postMsgkey : Bytes
  postStart : Bytes

def TaskRow.appid (row : TaskRow) : Nat := row.node * 10000 + row.sensortype * 100 + row.task

/-- The configuration of a task, which looks its sensor up by name. -/
def TaskRow.config (row : TaskRow) (sensorRows : List SensorRow) (deadline priority : Nat) : Option AppConfig := do
  let sensorRow ← sensorRows.find? (·.sensor = row.sensor)
  if row.sensortype ∈ [1, 2, 3] then
    return {
      appid := str row.appid
      deadline := deadline
      priority := priority
      sensorid := sensorRow.sensorId
      nodeid := row.node
      sensortype := row.sensortype
      sensorStart := str sensorRow.start
      preMsgkey := str row.appid ++ str 1
      preStart := str priority ++ str 100
      inferMsgkey := str row.appid ++ str 2
      inferStart := str priority ++ str 200
      postMsgkey := str row.appid ++ str 3
      postStart := str priority ++ str 300 }
  else none

/-- The configurations, in the order in which they are written. -/
structure Configs where
  sensors : List SensorConfig
  apps : List AppConfig

/-- `app<appid>.ini` in the end: a configuration replaces an earlier one of its name. -/
def Configs.appFile (c : Configs) (appid : Nat) : Option AppConfig := c.apps.reverse.find? (·.appid = str appid)

/-- The generator for a node allocation, the deadlines of the tasks and the result of `argsort`;
`fps` divides by every deadline first. -/
def generate (nodeAllocation : NodeAllocation) (deadline prioprityIndex : List Nat) : Option Configs := do
  let prioprity ← prioprity deadline prioprityIndex
  if 0 ∈ deadline then none else do
    let (sensorRows, taskRows) := collect nodeAllocation
    let sensors ← sensorRows.mapM SensorRow.config
    let apps ← taskRows.zipIdx.mapM fun (row, taskNum) => do
      row.config sensorRows (← deadline[taskNum]?) (← prioprity[taskNum]?)
    return { sensors := sensors, apps := apps }

/-! The keys of the shared-memory segments that `CrossQueue` creates from a configuration. -/

def dataQueue (dataKey maxLength : Nat) : List Nat := (List.range maxLength).map (dataKey + ·)

/-- The loop over `data_queue` leaves its last key in `data_key`. -/
def lastDataKey (dataKey maxLength : Nat) : Nat := (dataQueue dataKey maxLength).getLastD dataKey

def timeQueue (dataKey maxLength : Nat) : List Nat :=
  (List.range maxLength).map (lastDataKey dataKey maxLength + maxLength + ·)

def rearKey (dataKey maxLength : Nat) : Nat := lastDataKey dataKey maxLength + 2 * maxLength + 1

/-- The segments of a queue of five slots, the fronts apart. -/
def segmentKeys (dataKey : Nat) : List Nat := dataQueue dataKey 5 ++ timeQueue dataKey 5 ++ [rearKey dataKey 5]

/-- The starts of the queues of an application, as `AppConfig` reads them. -/
def AppConfig.starts (app : AppConfig) : Option (List Nat) :=
  [app.preStart, app.inferStart, app.postStart].mapM int?

/-- The front keys: the application id on the queue of its sensor and those of its own queues. -/
def AppConfig.frontKeys (app : AppConfig) : Option (List Nat) :=
  [app.appid, app.preMsgkey, app.inferMsgkey, app.postMsgkey].mapM int?

/-- All shared-memory keys of the generated configurations. -/
def Configs.keys (c : Configs) : Option (List Nat) := do
  let sensorStarts ← c.sensors.mapM fun sensor => int? sensor.start
  let appStarts ← c.apps.mapM AppConfig.starts
  let frontKeys ← c.apps.mapM AppConfig.frontKeys
  return (sensorStarts ++ appStarts.flatten).flatMap segmentKeys ++ frontKeys.flatten

end Soar.ConfigGen
