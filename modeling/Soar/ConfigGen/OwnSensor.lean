import Mathlib.Data.List.Forall2
import Soar.ConfigGen.KeySeparation

/-! Whether an application configuration points at the sensor that its task is listed under. -/
namespace Soar.ConfigGen
open Soar.Computing Soar.Library

/-- The tasks of a node, each with the row computed for the entry that lists it. -/
def NodeEntry.listed (node : NodeEntry) (sensors : List SensorEntry) (counters : Counters) :
    List (TaskRow × SensorRow) :=
  (sensors.zip (node.collect sensors counters).1).flatMap fun (sensor, row) =>
    (node.taskRows sensor).map fun task => (task, row)

def NodeAllocation.listed (nodeAllocation : NodeAllocation) : List (TaskRow × SensorRow) :=
  nodeAllocation.flatMap fun node => node.listed node.sensors {}

/-- The configuration has the id and the start of the sensor. -/
def AppConfig.PointsAt (app : AppConfig) (row : SensorRow) : Prop :=
  app.sensorid = row.sensorId ∧ app.sensorStart = str row.start

/-- The file of each task points at the sensor that lists the task. -/
def Configs.PointAtOwn (c : Configs) (nodeAllocation : NodeAllocation) : Prop :=
  ∀ p ∈ nodeAllocation.listed, ∃ app, c.appFile p.1.appid = some app ∧ app.PointsAt p.2

/-- The last task of an id: its configuration stays in the file. -/
def NodeAllocation.lastTask (nodeAllocation : NodeAllocation) (appid : Nat) : Option TaskRow :=
  nodeAllocation.placements.reverse.find? (·.appid = appid)

/-- The first sensor of the name, wherever it is in the file, has the same id. -/
def SensorRow.AgreesWithFirst (row : SensorRow) (rows : List SensorRow) : Prop :=
  ∀ before first after, rows = before ++ first :: after → first.sensor = row.sensor →
    (∀ earlier ∈ before, earlier.sensor ≠ row.sensor) → first.sensorId = row.sensorId

section Lists

variable {α β : Type} {R : α → β → Prop}

/-- Two lists that go together are searched in the same way. -/
theorem find?_forall₂ {p : α → Bool} {q : β → Bool} {l : List α} {l' : List β} (h : List.Forall₂ R l l')
    (hpq : ∀ x y, R x y → p x = q y) : Option.Rel R (l.find? p) (l'.find? q) := by
  induction h with
  | nil => exact .none
  | cons hxy _ ih =>
    rw [List.find?_cons, List.find?_cons, hpq _ _ hxy]
    split
    · exact .some hxy
    · exact ih

end Lists

theorem NodeEntry.listed_fst (node : NodeEntry) (sensors : List SensorEntry) (counters : Counters) :
    (node.listed sensors counters).map Prod.fst = sensors.flatMap node.taskRows := by
  induction sensors generalizing counters with
  | nil => rfl
  | cons sensor sensors ih =>
    unfold NodeEntry.listed NodeEntry.collect
    rw [List.zip_cons_cons, List.flatMap_cons, List.flatMap_cons, List.map_append, List.map_map]
    exact congrArg₂ _ (List.map_id _) (ih _)

/-- These are all tasks of the file, in its order. -/
theorem listed_fst (nodeAllocation : NodeAllocation) :
    nodeAllocation.listed.map Prod.fst = nodeAllocation.placements := by
  unfold NodeAllocation.listed NodeAllocation.placements
  rw [List.map_flatMap]
  exact congrArg (List.flatMap · nodeAllocation) (funext fun node => node.listed_fst node.sensors {})

/-- What the configuration of a task has of the task, and of the first sensor with the name of its own. -/
structure TaskRow.WritesTo (task : TaskRow) (rows : List SensorRow) (app : AppConfig) : Prop where
  appid : app.appid = str task.appid
  nodeid : app.nodeid = task.node
  sensortype : app.sensortype = task.sensortype
  sensor : ∃ first, rows.find? (·.sensor = task.sensor) = some first ∧ app.PointsAt first

theorem TaskRow.config_writesTo {task : TaskRow} {rows : List SensorRow} {deadline priority : Nat} {app : AppConfig}
    (h : task.config rows deadline priority = some app) : task.WritesTo rows app := by
  unfold TaskRow.config at h
  obtain ⟨first, hfirst, h⟩ := Option.bind_eq_some_iff.mp h
  split_ifs at h
  obtain rfl := Option.some.inj h
  exact ⟨rfl, rfl, rfl, first, hfirst, rfl, rfl⟩

section Files

variable {nodeAllocation : NodeAllocation} {deadline prioprityIndex : List Nat} {c : Configs} {appid : Nat}

/-- The configurations are written in the order of the tasks. -/
theorem generate_apps (hc : generate nodeAllocation deadline prioprityIndex = some c) :
    List.Forall₂ (fun app task => task.WritesTo (collect nodeAllocation).1 app) c.apps nodeAllocation.placements := by
  unfold generate at hc
  obtain ⟨priorities, -, hc⟩ := Option.bind_eq_some_iff.mp hc
  split_ifs at hc
  obtain ⟨sensors, -, hc⟩ := Option.bind_eq_some_iff.mp hc
  obtain ⟨apps, happs, hc⟩ := Option.bind_eq_some_iff.mp hc
  obtain rfl := Option.some.inj hc
  have hlisted : List.Forall₂ (fun (p : TaskRow × Nat) task => p.1 = task) (collect nodeAllocation).2.zipIdx
      nodeAllocation.placements := by
    rw [← (collect_eq nodeAllocation).2, ← List.forall₂_map_left_iff, List.zipIdx_map_fst]
    exact List.forall₂_refl _
  apply forall₂_of_mapM happs hlisted
  rintro ⟨task, taskNum⟩ app _ hconfig rfl
  obtain ⟨_, -, hconfig⟩ := Option.bind_eq_some_iff.mp hconfig
  obtain ⟨_, -, hconfig⟩ := Option.bind_eq_some_iff.mp hconfig
  exact TaskRow.config_writesTo hconfig

theorem str_injective {m n : Nat} (h : str m = str n) : m = n := by
  have hint := congrArg int? h
  rw [int?_str, int?_str] at hint
  exact Option.some.inj hint

/-- In the end, each file is the one that the last task of its id has written. -/
theorem generate_appFile (hc : generate nodeAllocation deadline prioprityIndex = some c) (appid : Nat) :
    Option.Rel (fun app task => task.WritesTo (collect nodeAllocation).1 app) (c.appFile appid)
      (nodeAllocation.lastTask appid) := by
  refine find?_forall₂ (List.rel_reverse (generate_apps hc)) fun app task h => ?_
  rw [h.appid, decide_eq_decide]
  exact ⟨str_injective, congrArg str⟩

/-- The file of an application is that of the last task with its id. -/
theorem exists_appFile (hc : generate nodeAllocation deadline prioprityIndex = some c) {task : TaskRow}
    (h : nodeAllocation.lastTask appid = some task) :
    ∃ app, c.appFile appid = some app ∧ task.WritesTo (collect nodeAllocation).1 app := by
  have hrel := generate_appFile hc appid
  rw [h] at hrel
  cases happ : c.appFile appid with
  | none =>
    rw [happ] at hrel
    cases hrel
  | some app =>
    rw [happ] at hrel
    cases hrel with
    | some hwrites => exact ⟨app, rfl, hwrites⟩

theorem exists_lastTask (hc : generate nodeAllocation deadline prioprityIndex = some c) {app : AppConfig}
    (h : c.appFile appid = some app) :
    ∃ task, nodeAllocation.lastTask appid = some task ∧ task.WritesTo (collect nodeAllocation).1 app := by
  have hrel := generate_appFile hc appid
  rw [h] at hrel
  cases htask : nodeAllocation.lastTask appid with
  | none =>
    rw [htask] at hrel
    cases hrel
  | some task =>
    rw [htask] at hrel
    cases hrel with
    | some hwrites => exact ⟨task, rfl, hwrites⟩

end Files

/-- The lookup by name finds the first sensor of the name. -/
theorem find?_sensor_iff {rows : List SensorRow} {sensor : Nat} {first : SensorRow} :
    rows.find? (·.sensor = sensor) = some first ↔ first.sensor = sensor ∧
      ∃ before after, rows = before ++ first :: after ∧ ∀ earlier ∈ before, earlier.sensor ≠ sensor := by
  simp [List.find?_eq_some_iff_append]

theorem SensorRow.agreesWithFirst_iff {row first : SensorRow} {rows : List SensorRow}
    (h : rows.find? (·.sensor = row.sensor) = some first) :
    row.AgreesWithFirst rows ↔ first.sensorId = row.sensorId := by
  constructor
  · intro hagrees
    obtain ⟨hname, before, after, hrows, hbefore⟩ := find?_sensor_iff.mp h
    exact hagrees before first after hrows hname hbefore
  · intro hid before first' after hrows hname hbefore
    have hfound := find?_sensor_iff.mpr ⟨hname, before, after, hrows, hbefore⟩
    obtain rfl := Option.some_inj.mp (h.symm.trans hfound)
    exact hid

theorem mem_collect_of_mem {nodeAllocation : NodeAllocation} {node : NodeEntry} (hnode : node ∈ nodeAllocation)
    {row : SensorRow} (hrow : row ∈ (node.collect node.sensors {}).1) : row ∈ (collect nodeAllocation).1 := by
  induction nodeAllocation with
  | nil => exact absurd hnode List.not_mem_nil
  | cons node' nodes ih =>
    unfold collect
    rcases List.mem_cons.mp hnode with rfl | hnode
    · exact List.mem_append_left _ hrow
    · exact List.mem_append_right _ (ih hnode)

theorem mem_collect_of_listed {nodeAllocation : NodeAllocation} {p : TaskRow × SensorRow}
    (hp : p ∈ nodeAllocation.listed) : p.2 ∈ (collect nodeAllocation).1 := by
  obtain ⟨node, hnode, hp⟩ := List.mem_flatMap.mp hp
  obtain ⟨⟨sensor, row⟩, hzip, hp⟩ := List.mem_flatMap.mp hp
  obtain ⟨task, -, rfl⟩ := List.mem_map.mp hp
  exact mem_collect_of_mem hnode (List.of_mem_zip hzip).2

/-- In a file whose names are all distinct, every row is the first of its name. -/
theorem agreesWithFirst_of_nodup {nodeAllocation : NodeAllocation}
    (h : (nodeAllocation.entries.map (·.number)).Nodup) :
    ∀ p ∈ nodeAllocation.listed, p.2.AgreesWithFirst (collect nodeAllocation).1 := by
  have hnames := congrArg (List.map Prod.fst) (collect_eq nodeAllocation).1
  rw [List.map_map, List.map_map] at hnames
  have hnodup : ((collect nodeAllocation).1.map (·.sensor)).Nodup := hnames ▸ h
  intro p hp before first after hrows hname _
  have hfirst : first ∈ (collect nodeAllocation).1 := hrows ▸ List.mem_append_right _ (List.mem_cons_self ..)
  rw [List.inj_on_of_nodup_map hnodup hfirst (mem_collect_of_listed hp) hname]

/-- The files point at their own sensors exactly if, for each task, the last task of its id is under a sensor of the
same name, and the first sensor of this name in the file has the id of its own. -/
theorem pointAtOwn_iff {nodeAllocation : NodeAllocation} {deadline prioprityIndex : List Nat} {c : Configs}
    (hc : generate nodeAllocation deadline prioprityIndex = some c) :
    c.PointAtOwn nodeAllocation ↔ ∀ p ∈ nodeAllocation.listed, ∀ last, nodeAllocation.lastTask p.1.appid = some last →
      last.sensor = p.2.sensor ∧ p.2.AgreesWithFirst (collect nodeAllocation).1 := by
  apply forall₂_congr
  rintro ⟨task, own⟩ hp
  have htask : task ∈ nodeAllocation.placements := listed_fst nodeAllocation ▸ List.mem_map_of_mem hp
  have hsome : (nodeAllocation.lastTask task.appid).isSome :=
    List.find?_isSome.mpr ⟨task, List.mem_reverse.mpr htask, decide_eq_true rfl⟩
  obtain ⟨last, hlast⟩ := Option.isSome_iff_exists.mp hsome
  obtain ⟨app, happ, hwrites⟩ := exists_appFile hc hlast
  obtain ⟨first, hfirst, hid, hstart⟩ := hwrites.sensor
  have hname := (find?_sensor_iff.mp hfirst).1
  have hstart' : app.sensorStart = str own.start ↔ last.sensor = own.sensor := by
    rw [hstart]
    unfold SensorRow.start
    rw [hname]
    constructor
    · intro heq
      exact Nat.eq_of_mul_eq_mul_right (by decide) (str_injective heq)
    · intro heq
      rw [heq]
  simp only [happ, hlast, Option.some.injEq, exists_eq_left', forall_eq']
  unfold AppConfig.PointsAt
  rw [hstart', hid, and_comm]
  apply and_congr_right
  intro heq
  exact (SensorRow.agreesWithFirst_iff (heq ▸ hfirst)).symm

/-- The files of the indoor allocation name the sensors of their own tasks. -/
theorem pointAtOwn_indoor :
    ∃ c, generate indoor [249, 301, 245, 248, 252] [2, 3, 0, 4, 1] = some c ∧ c.PointAtOwn indoor := by
  have hsome : (generate indoor [249, 301, 245, 248, 252] [2, 3, 0, 4, 1]).isSome = true := by
    decide +kernel
  obtain ⟨c, hc⟩ := Option.isSome_iff_exists.mp hsome
  have hlast : ∀ p ∈ indoor.listed, (indoor.lastTask p.1.appid).all fun last => last.sensor = p.2.sensor := by
    decide
  refine ⟨c, hc, (pointAtOwn_iff hc).mpr fun p hp last h => ⟨?_, ?_⟩⟩
  · simpa [h] using hlast p hp
  · exact agreesWithFirst_of_nodup (by decide) p hp

/-- A `sensor1` on each of two nodes: a lidar and a thermal camera. -/
def localNames : NodeAllocation :=
  [⟨1, "testbed-01", [⟨1, 1, .list [1]⟩]⟩, ⟨2, "testbed-02", [⟨1, 3, .list [2]⟩]⟩]

/-- The task of node 2 gets the sensor 10101 of node 1; its own is 20301. -/
theorem not_pointAtOwn_localNames :
    ¬∀ (nodeAllocation : NodeAllocation) (deadline prioprityIndex : List Nat) (c : Configs),
      generate nodeAllocation deadline prioprityIndex = some c → c.PointAtOwn nodeAllocation := by
  intro h
  have hids : (generate localNames [249, 301] [0, 1]).map (fun c => (c.appFile 20302).map (·.sensorid)) =
      some (some 10101) := by
    decide +kernel
  obtain ⟨c, hc, hfile⟩ := Option.map_eq_some_iff.mp hids
  obtain ⟨app, happ, hid⟩ := Option.map_eq_some_iff.mp hfile
  have hown : (⟨2, 2, 1, 3⟩, ⟨1, "testbed-02", 3, 2, 1⟩) ∈ localNames.listed :=
    List.mem_cons_of_mem _ (List.mem_cons_self ..)
  obtain ⟨app', happ', hpoints⟩ := h localNames [249, 301] [0, 1] c hc _ hown
  obtain rfl : app = app' := Option.some.inj (happ.symm.trans happ')
  exact absurd (hid.symm.trans hpoints.1) (by decide)

end Soar.ConfigGen
