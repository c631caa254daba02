import Mathlib.Algebra.Order.BigOperators.Group.List
import Soar.ConfigGen.OwnSensor
import Soar.Dispatcher.SensorDict

/-! Whether the generator and the dispatcher give the sensors of a node the same ids. -/
namespace Soar.ConfigGen

/-- The types of the sensors of a node, in the order of the file. -/
def NodeEntry.types (node : NodeEntry) : List Nat := node.sensors.map (·.sensortype)

/-- Two types that the generator counts together. -/
def SameCounter (t u : Nat) : Prop := t = u ∨ t ∉ [1, 2] ∧ u ∉ [1, 2]

instance (t u : Nat) : Decidable (SameCounter t u) := inferInstanceAs (Decidable (_ ∨ _))

theorem SameCounter.refl (t : Nat) : SameCounter t t := .inl rfl

theorem SameCounter.symm {t u : Nat} (h : SameCounter t u) : SameCounter u t := h.imp Eq.symm And.symm

/-- Lidars, cameras and thermal cameras have counters of their own. -/
theorem SameCounter.eq {t u : Nat} (h : SameCounter t u) (ht : t ∈ [1, 2, 3]) (hu : u ∈ [1, 2, 3]) : t = u := by
  simp only [SameCounter, List.mem_cons, List.not_mem_nil, or_false] at h ht hu
  omega

/-- The sensors of a type so far, with all sensors that are counted with them. -/
def Counters.of (c : Counters) : Nat → Nat
  | 1 => c.lidar
  | 2 => c.camera
  | _ => c.thermal

theorem Counters.of_empty (t : Nat) : ({} : Counters).of t = 0 := by
  rcases t with _ | _ | _ | t <;> rfl

@[simp] theorem Counters.count_snd (c : Counters) (t : Nat) : (c.count t).2 = c.of t + 1 := by
  rcases t with _ | _ | _ | t <;> rfl

theorem Counters.count_of (c : Counters) (t u : Nat) :
    (c.count t).1.of u = if SameCounter t u then c.of u + 1 else c.of u := by
  rcases t with _ | _ | _ | t <;> rcases u with _ | _ | _ | u <;>
    simp [Counters.count, Counters.of, SameCounter]

/-- The types and ids of the generator for some of the sensors of a node. -/
def NodeEntry.generated (node : NodeEntry) (sensors : List SensorEntry) (c : Counters) : List (Nat × Nat) :=
  (node.collect sensors c).1.map fun row => (row.sensortype, row.sensorId)

theorem NodeEntry.generated_cons (node : NodeEntry) (sensor : SensorEntry) (sensors : List SensorEntry) (c : Counters) :
    node.generated (sensor :: sensors) c =
      (sensor.sensortype, node.number * 10000 + sensor.sensortype * 100 + (c.of sensor.sensortype + 1)) ::
        node.generated sensors (c.count sensor.sensortype).1 := by
  rw [← Counters.count_snd]
  rfl

end Soar.ConfigGen

namespace Soar.Dispatcher
open Soar.ConfigGen Soar.Library

/-- The sensors of one type follow one another. -/
def Grouped : List Nat → Prop
  | [] => True
  | t :: types => (t ∈ types → types.head? = some t) ∧ Grouped types

instance Grouped.decidable : (types : List Nat) → Decidable (Grouped types)
  | [] => instDecidableTrue
  | _ :: types => @instDecidableAnd _ _ inferInstance (Grouped.decidable types)

/-- What a task reads from its configuration to find its sensor. -/
structure Reads (task : Task) (app : AppConfig) : Prop where
  dataSource : task.dataSource = app.sensortype
  nodeId : task.nodeId = app.nodeid
  sensorId : task.sensorId = app.sensorid

/-- The ids under which an edge node keeps its sensors. -/
def EdgeNode.sensorIds (edgeNode : EdgeNode) : List Int := SensorDict.sensorIds edgeNode.sensordict

theorem exists_reads (app : AppConfig) : ∃ task, Reads task app :=
  ⟨{ taskId := 0, modelId := "", dataSource := app.sensortype, deadline := 0, nodeId := app.nodeid
     sensorId := app.sensorid, missBound := 0, optBatch := 0, optTime := [], fps := 0, priority := 0 }, rfl, rfl, rfl⟩

/-- For a node of the file, the generator completes, the edge node keeps the sensors of the node under the ids of the
generator, and `allocate` finds them for the tasks of the configurations. -/
structure SameSensors (nodeAllocation : NodeAllocation) (node : NodeEntry) (edgeNode : EdgeNode) : Prop where
  generates : ∃ deadline prioprityIndex c, generate nodeAllocation deadline prioprityIndex = some c
  one_each : edgeNode.sensorIds.length = node.types.length
  nodup : edgeNode.sensorIds.Nodup
  generated : edgeNode.sensorIds.Perm ((node.generated node.sensors {}).map fun p => (p.2 : Int))
  found : ∀ (deadline prioprityIndex : List Nat) (c : Configs),
    generate nodeAllocation deadline prioprityIndex = some c →
      ∀ (appid : Nat) (app : AppConfig), c.appFile appid = some app → app.nodeid = node.number →
        ∀ (a : Allocator) (task : Task), a.network.get node.number = some edgeNode → Reads task app →
          (a.getSensor task).isSome

/-- The first sensor in the file that has the name of a sensor with a task of this node has the id of a sensor of the
same type on this node. -/
def OwnNames (nodeAllocation : NodeAllocation) (node : NodeEntry) : Prop :=
  ∀ appid task, nodeAllocation.lastTask appid = some task → task.node = node.number →
    ∀ first, (collect nodeAllocation).1.find? (·.sensor = task.sensor) = some first →
      (task.sensortype, first.sensorId) ∈ node.generated node.sensors {}

section Numbering

variable (node : NodeEntry) {sensors : List SensorEntry} {lastType : Option Int} {count : Nat} {c : Counters}

/-- The types and ids of the dispatcher, for some of the sensors of a node. -/
private def dispatched (sensors : List SensorEntry) (lastType : Option Int) (count : Nat) : List (Int × Int) :=
  assigned node.number (sensors.map fun s => (s.sensortype : Int)) lastType count

private theorem length_dispatched (sensors : List SensorEntry) :
    ((dispatched node sensors lastType count).map Prod.snd).length = (sensors.map (·.sensortype)).length := by
  rw [List.length_map, dispatched, length_assigned, List.length_map, List.length_map]

private theorem dispatched_le (h : ∀ t : Nat, lastType = some (t : Int) → count ≤ c.of t) :
    List.Forall₂ (· ≤ ·) ((dispatched node sensors lastType count).map Prod.snd)
      ((node.generated sensors c).map fun p => (p.2 : Int)) := by
  induction sensors generalizing lastType count c with
  | nil => exact .nil
  | cons s sensors ih =>
    rw [node.generated_cons]
    refine .cons ?_ (ih fun t ht => ?_)
    · dsimp only
      split_ifs with hlast
      · have := h s.sensortype hlast.symm
        omega
      · omega
    · obtain rfl : s.sensortype = t := by simpa using ht
      rw [Counters.count_of, if_pos (SameCounter.refl _)]
      split_ifs with hlast
      · exact Nat.add_le_add_right (h s.sensortype hlast.symm) 1
      · omega

private theorem eq_of_forall₂_le {l m : List Int} (h : List.Forall₂ (· ≤ ·) l m) (hsum : l.sum = m.sum) : l = m := by
  induction h with
  | nil => rfl
  | cons hle h ih =>
    rw [List.sum_cons, List.sum_cons] at hsum
    have hrest := h.sum_le_sum
    exact congrArg₂ _ (by omega) (ih (by omega))

private theorem grouped_of_eq (h : (dispatched node sensors lastType count).map Prod.snd =
      (node.generated sensors c).map fun p => (p.2 : Int)) :
    Grouped (sensors.map (·.sensortype)) ∧
      ∀ t ∈ sensors.map (·.sensortype), 0 < c.of t →
        lastType = some (t : Int) ∧ (sensors.map (·.sensortype)).head? = some t := by
  induction sensors generalizing lastType count c with
  | nil => exact ⟨trivial, nofun⟩
  | cons s sensors ih =>
    rw [node.generated_cons] at h
    obtain ⟨hhead, htail⟩ := List.cons_eq_cons.mp h
    obtain ⟨hgrouped, hlater⟩ := ih htail
    have hsame : ∀ t ∈ sensors.map (·.sensortype), SameCounter s.sensortype t →
        s.sensortype = t ∧ (sensors.map (·.sensortype)).head? = some t := by
      intro t ht hst
      have hpos : 0 < (c.count s.sensortype).1.of t := by
        rw [Counters.count_of, if_pos hst]
        omega
      exact (hlater t ht hpos).imp_left fun heq => by simpa using heq
    rw [List.map_cons]
    refine ⟨⟨fun hmem => (hsame _ hmem (SameCounter.refl _)).2, hgrouped⟩, fun t ht hpos => ?_⟩
    obtain rfl : t = s.sensortype := by
      rcases List.mem_cons.mp ht with rfl | ht
      · rfl
      · have hlast : (some (s.sensortype : Int)) = some (t : Int) := by
          refine (hlater t ht ?_).1
          rw [Counters.count_of]
          split_ifs <;> omega
        exact_mod_cast (Option.some.inj hlast).symm
    refine ⟨?_, rfl⟩
    by_contra hlast
    dsimp only at hhead
    rw [if_neg (Ne.symm hlast)] at hhead
    omega

private theorem dispatched_eq (hgrouped : Grouped (sensors.map (·.sensortype)))
    (htypes : ∀ t ∈ sensors.map (·.sensortype), t ∈ [1, 2, 3])
    (h : ∀ t : Nat, t ∈ sensors.map (·.sensortype) →
      if lastType = some (t : Int) then (sensors.map (·.sensortype)).head? = some t ∧ count = c.of t else c.of t = 0) :
    dispatched node sensors lastType count =
      (node.generated sensors c).map fun p => ((p.1 : Int), (p.2 : Int)) := by
  induction sensors generalizing lastType count c with
  | nil => rfl
  | cons s sensors ih =>
    obtain ⟨hnext, hgrouped⟩ := hgrouped
    have hcount : (if some (s.sensortype : Int) = lastType then count else 0) = c.of s.sensortype := by
      have hs := h s.sensortype (List.mem_cons_self ..)
      split_ifs with hlast
      · rw [if_pos hlast.symm] at hs
        exact hs.2
      · rw [if_neg (Ne.symm hlast)] at hs
        exact hs.symm
    have hrest : ∀ t ∈ sensors.map (·.sensortype), t ∈ [1, 2, 3] := fun t ht => htypes t (List.mem_cons_of_mem _ ht)
    have htail : dispatched node sensors (some (s.sensortype : Int)) (c.of s.sensortype + 1) =
        (node.generated sensors (c.count s.sensortype).1).map fun p => ((p.1 : Int), (p.2 : Int)) := by
      refine ih hgrouped hrest fun t ht => ?_
      have hsame : SameCounter s.sensortype t → s.sensortype = t :=
        fun h => h.eq (htypes _ (List.mem_cons_self ..)) (hrest t ht)
      rw [Counters.count_of]
      split_ifs with hst hcounter hcounter
      · obtain rfl : s.sensortype = t := by simpa using hst
        exact ⟨hnext ht, rfl⟩
      · obtain rfl : s.sensortype = t := by simpa using hst
        exact absurd (SameCounter.refl _) hcounter
      · exact absurd (congrArg (fun t : Nat => some (t : Int)) (hsame hcounter)) hst
      · have ht' := h t (List.mem_cons_of_mem _ ht)
        split_ifs at ht' with hlast
        · exact absurd (.inl (Option.some.inj ht'.1)) hcounter
        · exact ht'
    rw [node.generated_cons, List.map_cons, ← htail]
    unfold dispatched
    rw [List.map_cons, assigned]
    simp only [hcount]
    push_cast
    rw [add_assoc]

private theorem count_of_add (c : Counters) (s t : Nat) (types : List Nat) :
    (c.count s).1.of t + types.countP (SameCounter t) = c.of t + (s :: types).countP (SameCounter t) := by
  have hsymm : SameCounter s t ↔ SameCounter t s := ⟨SameCounter.symm, SameCounter.symm⟩
  rw [Counters.count_of, List.countP_cons]
  simp only [hsymm, decide_eq_true_eq]
  split_ifs <;> omega

private theorem countP_sameCounter_pos (s : SensorEntry) (sensors : List SensorEntry) :
    0 < ((s :: sensors).map (·.sensortype)).countP (SameCounter s.sensortype) :=
  List.countP_pos_iff.mpr ⟨_, List.mem_cons_self .., decide_eq_true (SameCounter.refl _)⟩

private theorem mem_generated {p : Nat × Nat} (hp : p ∈ node.generated sensors c) :
    p.1 ∈ sensors.map (·.sensortype) ∧
      ∃ k, p.2 = node.number * 10000 + p.1 * 100 + k ∧ c.of p.1 < k ∧
        k ≤ c.of p.1 + (sensors.map (·.sensortype)).countP (SameCounter p.1) := by
  induction sensors generalizing c with
  | nil => exact absurd hp List.not_mem_nil
  | cons s sensors ih =>
    rw [node.generated_cons] at hp
    rcases List.mem_cons.mp hp with rfl | hp
    · exact ⟨List.mem_cons_self .., _, rfl, Nat.lt_succ_self _,
        Nat.add_le_add_left (countP_sameCounter_pos s sensors) _⟩
    · obtain ⟨hmem, k, hk, hlt, hle⟩ := ih hp
      rw [count_of_add] at hle
      refine ⟨List.mem_cons_of_mem _ hmem, k, hk, lt_of_le_of_lt ?_ hlt, hle⟩
      rw [Counters.count_of]
      split_ifs <;> omega

private theorem nodup_generated
    (htypes : ∀ t ∈ sensors.map (·.sensortype), 1 ≤ t ∧ t ≤ 99)
    (hcount : ∀ t ∈ sensors.map (·.sensortype),
      c.of t + (sensors.map (·.sensortype)).countP (SameCounter t) < 100) :
    ((node.generated sensors c).map Prod.snd).Nodup := by
  induction sensors generalizing c with
  | nil => exact List.nodup_nil
  | cons s sensors ih =>
    rw [node.generated_cons, List.map_cons]
    refine List.nodup_cons.mpr ⟨fun hmem => ?_, ih (fun t ht => htypes t (List.mem_cons_of_mem _ ht)) fun t ht => ?_⟩
    · obtain ⟨p, hp, heq⟩ := List.mem_map.mp hmem
      obtain ⟨hp, k, hk, hlt, hle⟩ := mem_generated node hp
      have hbound := hcount p.1 (List.mem_cons_of_mem _ hp)
      have hbound' := hcount s.sensortype (List.mem_cons_self ..)
      have hown := countP_sameCounter_pos s sensors
      have hle' := hle.trans_eq (count_of_add c s.sensortype p.1 (sensors.map (·.sensortype)))
      rw [List.map_cons] at hbound hbound' hown
      dsimp only at heq
      have htype : p.1 = s.sensortype := by omega
      rw [Counters.count_of, htype, if_pos (SameCounter.refl _)] at hlt
      omega
    · rw [count_of_add]
      exact hcount t (List.mem_cons_of_mem _ ht)

end Numbering

section Generates

variable {nodeAllocation : NodeAllocation}

private theorem exists_row {s : SensorEntry} (hs : s ∈ nodeAllocation.entries) :
    ∃ row ∈ (collect nodeAllocation).1, row.sensor = s.number ∧ row.sensortype = s.sensortype := by
  have hrow : (s.number, s.sensortype) ∈ (collect nodeAllocation).1.map fun row => (row.sensor, row.sensortype) := by
    rw [(collect_eq nodeAllocation).1]
    exact List.mem_map_of_mem hs
  obtain ⟨row, hrow, heq⟩ := List.mem_map.mp hrow
  exact ⟨row, hrow, Prod.ext_iff.mp heq⟩

private theorem exists_entry {row : SensorRow} (hrow : row ∈ (collect nodeAllocation).1) :
    ∃ s ∈ nodeAllocation.entries, s.number = row.sensor ∧ s.sensortype = row.sensortype := by
  have hentry : (row.sensor, row.sensortype) ∈ nodeAllocation.entries.map fun s => (s.number, s.sensortype) := by
    rw [← (collect_eq nodeAllocation).1]
    exact List.mem_map_of_mem hrow
  obtain ⟨s, hs, heq⟩ := List.mem_map.mp hentry
  exact ⟨s, hs, Prod.ext_iff.mp heq⟩

private theorem exists_entry_of_task {task : TaskRow} (h : task ∈ nodeAllocation.placements) :
    ∃ s ∈ nodeAllocation.entries, s.number = task.sensor ∧ s.sensortype = task.sensortype := by
  obtain ⟨node, hnode, h⟩ := List.mem_flatMap.mp h
  obtain ⟨sensor, hsensor, h⟩ := List.mem_flatMap.mp h
  obtain ⟨_, -, rfl⟩ := List.mem_map.mp h
  exact ⟨sensor, List.mem_flatMap.mpr ⟨node, hnode, hsensor⟩, rfl, rfl⟩

private theorem types_of_generate {deadline prioprityIndex : List Nat} {c : Configs}
    (hc : generate nodeAllocation deadline prioprityIndex = some c) :
    ∀ s ∈ nodeAllocation.entries, s.sensortype ∈ [1, 2, 3] := by
  unfold generate at hc
  obtain ⟨_, -, hc⟩ := Option.bind_eq_some_iff.mp hc
  split_ifs at hc
  obtain ⟨sensors, hsensors, -⟩ := Option.bind_eq_some_iff.mp hc
  intro s hs
  obtain ⟨row, hrow, -, htype⟩ := exists_row hs
  obtain ⟨config, -, hconfig⟩ := exists_mem_mapM hsensors hrow
  unfold SensorRow.config at hconfig
  split_ifs at hconfig with hmem
  exact htype ▸ hmem

private theorem exists_config (htypes : ∀ s ∈ nodeAllocation.entries, s.sensortype ∈ [1, 2, 3]) {task : TaskRow}
    (h : task ∈ nodeAllocation.placements) (deadline priority : Nat) :
    ∃ app, task.config (collect nodeAllocation).1 deadline priority = some app := by
  obtain ⟨s, hs, hname, htype⟩ := exists_entry_of_task h
  obtain ⟨row, hrow, hsensor, -⟩ := exists_row hs
  have hfound : ((collect nodeAllocation).1.find? (·.sensor = task.sensor)).isSome :=
    List.find?_isSome.mpr ⟨row, hrow, decide_eq_true (hsensor.trans hname)⟩
  obtain ⟨first, hfirst⟩ := Option.isSome_iff_exists.mp hfound
  unfold TaskRow.config
  simp only [hfirst, if_pos (htype ▸ htypes s hs), Option.bind_eq_bind, Option.bind_some]
  exact ⟨_, rfl⟩

private theorem generate_of_types (htypes : ∀ s ∈ nodeAllocation.entries, s.sensortype ∈ [1, 2, 3]) :
    ∃ deadline prioprityIndex c, generate nodeAllocation deadline prioprityIndex = some c := by
  obtain ⟨count, hcount⟩ : ∃ count, count = nodeAllocation.placements.length := ⟨_, rfl⟩
  have hpriority := @prioprity_eq (List.replicate count 1) (List.range count) (by rw [List.length_replicate])
  have hpos : 0 ∉ List.replicate count 1 := fun hzero => absurd (List.eq_of_mem_replicate hzero) (by decide)
  obtain ⟨sensors, hsensors⟩ : ∃ sensors, (collect nodeAllocation).1.mapM SensorRow.config = some sensors := by
    refine exists_mapM fun row hrow => ?_
    obtain ⟨s, hs, -, htype⟩ := exists_entry hrow
    exact ⟨_, if_pos (htype ▸ htypes s hs)⟩
  refine ⟨List.replicate count 1, List.range count, ?_⟩
  unfold generate
  simp only [hpriority, if_neg hpos, hsensors, (collect_eq nodeAllocation).2, Option.bind_eq_bind, Option.bind_some]
  obtain ⟨apps, happs⟩ := exists_mapM (l := nodeAllocation.placements.zipIdx) (f := fun p =>
      ((List.replicate count 1)[p.2]?).bind fun deadline =>
        (((List.range (List.replicate count 1).length).map fun i => (List.range count).idxOf i + 1)[p.2]?).bind fun priority =>
          p.1.config (collect nodeAllocation).1 deadline priority) (by
    rintro ⟨task, taskNum⟩ hp
    have hlt : taskNum < count := hcount ▸ (by simpa using (List.mem_zipIdx hp).2.1)
    have htask : task ∈ nodeAllocation.placements := List.fst_mem_of_mem_zipIdx hp
    simp only [List.getElem?_replicate, List.length_replicate, List.getElem?_map, List.getElem?_range hlt, if_pos hlt,
      Option.map_some, Option.bind_some]
    exact exists_config htypes htask _ _)
  exact ⟨_, by rw [happs]; rfl⟩

end Generates

section Identity

variable {nodeAllocation : NodeAllocation} {node : NodeEntry} {template : Int → Option Sensor} {edgeNode : EdgeNode}

private theorem map_types (node : NodeEntry) :
    node.types.map (fun t : Nat => (t : Int)) = node.sensors.map fun s => (s.sensortype : Int) := List.map_map

private theorem create_eq (h : EdgeNode.create node.number (node.types.map (↑)) template = some edgeNode) :
    edgeNode.id = node.number ∧ generateSensorDict node.number template
      (node.sensors.map fun s => (s.sensortype : Int)) none 0 [] = some edgeNode.sensordict := by
  unfold EdgeNode.create at h
  obtain ⟨dict, hdict, h⟩ := Option.bind_eq_some_iff.mp h
  obtain rfl := Option.some.inj h
  rw [← map_types]
  exact ⟨rfl, hdict⟩

private theorem dispatched_eq_generated (htypes : ∀ t ∈ node.types, t ∈ [1, 2, 3]) (hgrouped : Grouped node.types) :
    dispatched node node.sensors none 0 =
      (node.generated node.sensors {}).map fun p => ((p.1 : Int), (p.2 : Int)) := by
  apply dispatched_eq node hgrouped htypes
  intro t ht
  rw [if_neg nofun]
  exact Counters.of_empty t

private theorem SameSensors.grouped
    (hcreate : EdgeNode.create node.number (node.types.map (↑)) template = some edgeNode)
    (h : SameSensors nodeAllocation node edgeNode) : Grouped node.types := by
  have hsubset : edgeNode.sensorIds ⊆ (dispatched node node.sensors none 0).map Prod.snd := fun i hi =>
    (generateSensorDict_mem (create_eq hcreate).2 hi).resolve_right List.not_mem_nil
  have hlength : ((dispatched node node.sensors none 0).map Prod.snd).length ≤ edgeNode.sensorIds.length :=
    ((length_dispatched node node.sensors).trans h.one_each.symm).le
  have hperm := (List.subperm_of_subset h.nodup hsubset).perm_of_length_le hlength
  have hsum := (hperm.symm.trans h.generated).sum_eq
  have hle : List.Forall₂ (· ≤ ·) ((dispatched node node.sensors none 0).map Prod.snd)
      ((node.generated node.sensors {}).map fun p => (p.2 : Int)) := dispatched_le node nofun
  exact (grouped_of_eq node (eq_of_forall₂_le hle hsum)).1

private theorem getSensor_iff (hcreate : EdgeNode.create node.number (node.types.map (↑)) template = some edgeNode)
    (htypes : ∀ t ∈ node.types, t ∈ [1, 2, 3]) (hgrouped : Grouped node.types) {a : Allocator} {task : Task}
    {app : AppConfig} (hget : a.network.get node.number = some edgeNode) (hreads : Reads task app)
    (hid : app.nodeid = node.number) :
    (a.getSensor task).isSome ↔ (app.sensortype, app.sensorid) ∈ node.generated node.sensors {} := by
  have hdict : (a.getSensor task).isSome ↔ (SensorDict.get edgeNode.sensordict app.sensortype app.sensorid).isSome := by
    unfold Allocator.getSensor
    rw [hreads.nodeId, hid, hget, hreads.dataSource, hreads.sensorId]
    rfl
  have hkept := generateSensorDict_get (create_eq hcreate).2 app.sensortype app.sensorid
  have heq : assigned node.number (node.sensors.map fun s => (s.sensortype : Int)) none 0 = _ :=
    dispatched_eq_generated htypes hgrouped
  rw [heq, or_iff_left (by simp [SensorDict.get])] at hkept
  rw [hdict, hkept]
  constructor
  · intro hmem
    obtain ⟨p, hp, hpair⟩ := List.mem_map.mp hmem
    have hp' : p = (app.sensortype, app.sensorid) := by simpa [Prod.ext_iff] using hpair
    exact hp' ▸ hp
  · exact fun hmem => List.mem_map.mpr ⟨_, hmem, rfl⟩

private theorem SameSensors.ownNames
    (hcreate : EdgeNode.create node.number (node.types.map (↑)) template = some edgeNode)
    (htypes : ∀ t ∈ node.types, t ∈ [1, 2, 3]) (h : SameSensors nodeAllocation node edgeNode) :
    OwnNames nodeAllocation node := by
  intro appid task hlast hnumber first hfirst
  obtain ⟨deadline, prioprityIndex, c, hc⟩ := h.generates
  obtain ⟨app, happ, hwrites⟩ := exists_appFile hc hlast
  obtain ⟨first', hfirst', hid, -⟩ := hwrites.sensor
  obtain rfl : first = first' := Option.some.inj (hfirst.symm.trans hfirst')
  obtain ⟨reader, hreads⟩ := exists_reads app
  have hnode : app.nodeid = node.number := hwrites.nodeid.trans hnumber
  let network : EdgeNodeNetwork := { nodes := [edgeNode], nodup := List.nodup_singleton _ }
  have hget : network.get node.number = some edgeNode :=
    (create_eq hcreate).1 ▸ EdgeNodeNetwork.get_id (List.mem_singleton_self edgeNode)
  have hfound := h.found deadline prioprityIndex c hc appid app happ hnode
    (Allocator.create [reader] network fun _ => none) reader hget hreads
  rw [getSensor_iff hcreate htypes (h.grouped hcreate) hget hreads hnode, hwrites.sensortype, hid] at hfound
  exact hfound

private theorem sameSensors_of_conditions
    (hcreate : EdgeNode.create node.number (node.types.map (↑)) template = some edgeNode)
    (hcount : ∀ t, node.types.count t < 100) (hentries : ∀ s ∈ nodeAllocation.entries, s.sensortype ∈ [1, 2, 3])
    (htypes : ∀ t ∈ node.types, t ∈ [1, 2, 3]) (hgrouped : Grouped node.types) (hnames : OwnNames nodeAllocation node) :
    SameSensors nodeAllocation node edgeNode := by
  have hids : (dispatched node node.sensors none 0).map Prod.snd =
      (node.generated node.sensors {}).map fun p => (p.2 : Int) := by
    rw [dispatched_eq_generated htypes hgrouped, List.map_map]
    rfl
  have hnodup : ((node.generated node.sensors {}).map Prod.snd).Nodup := by
    apply nodup_generated node
    · intro t ht
      have hmem := htypes t ht
      simp only [List.mem_cons, List.not_mem_nil, or_false] at hmem
      omega
    · intro t ht
      have hsame : node.types.countP (SameCounter t) = node.types.count t := by
        apply List.countP_congr
        intro u hu
        rw [decide_eq_true_eq, beq_iff_eq]
        exact ⟨fun h => (h.eq (htypes t ht) (htypes u hu)).symm, fun h => .inl h.symm⟩
      rw [Counters.of_empty, Nat.zero_add]
      exact hsame.trans_lt (hcount t)
  have hnodup' : ((dispatched node node.sensors none 0).map Prod.snd).Nodup := by
    have hcast := List.Nodup.map (@Nat.cast_injective Int _ _) hnodup
    rw [hids]
    rwa [List.map_map] at hcast
  have hperm : edgeNode.sensorIds.Perm ((dispatched node node.sensors none 0).map Prod.snd) := by
    have hkept := generateSensorDict_perm (create_eq hcreate).2 ((List.append_nil _).symm ▸ hnodup')
    exact (List.append_nil ((dispatched node node.sensors none 0).map Prod.snd)) ▸ hkept
  constructor
  · exact generate_of_types hentries
  · exact hperm.length_eq.trans (length_dispatched node node.sensors)
  · exact hperm.nodup_iff.mpr hnodup'
  · exact hids ▸ hperm
  · intro deadline prioprityIndex c hc appid app happ hid a task hget hreads
    obtain ⟨last, hlast, hwrites⟩ := exists_lastTask hc happ
    obtain ⟨first, hfirst, hfirstId, -⟩ := hwrites.sensor
    rw [getSensor_iff hcreate htypes hgrouped hget hreads hid, hwrites.sensortype, hfirstId]
    exact hnames appid last hlast (hwrites.nodeid.symm.trans hid) first hfirst

/-- The dispatcher keeps the sensors of a node under the ids of the generator, and finds them for the tasks of the
configurations, exactly if it has templates for the types, all types of the file are those of the generator, the
sensors of each type follow one another and the names lead to sensors of the node. -/
theorem same_sensors_iff (hnode : node ∈ nodeAllocation) (hcount : ∀ t, node.types.count t < 100) :
    (∃ edgeNode, EdgeNode.create node.number (node.types.map (↑)) template = some edgeNode ∧
      SameSensors nodeAllocation node edgeNode) ↔
        (∀ t ∈ node.types, (template t).isSome) ∧ (∀ s ∈ nodeAllocation.entries, s.sensortype ∈ [1, 2, 3]) ∧
          Grouped node.types ∧ OwnNames nodeAllocation node := by
  have hown (hentries : ∀ s ∈ nodeAllocation.entries, s.sensortype ∈ [1, 2, 3]) : ∀ t ∈ node.types, t ∈ [1, 2, 3] := by
    intro t ht
    obtain ⟨s, hs, rfl⟩ := List.mem_map.mp ht
    exact hentries s (List.mem_flatMap.mpr ⟨node, hnode, hs⟩)
  constructor
  · rintro ⟨edgeNode, hcreate, hsame⟩
    obtain ⟨deadline, prioprityIndex, c, hc⟩ := hsame.generates
    have hentries := types_of_generate hc
    refine ⟨fun t ht => ?_, hentries, hsame.grouped hcreate, hsame.ownNames hcreate (hown hentries)⟩
    refine isSome_of_generateSensorDict (create_eq hcreate).2 t ?_
    rw [← map_types]
    exact List.mem_map_of_mem ht
  · rintro ⟨htemplate, hentries, hgrouped, hnames⟩
    have hsome : (generateSensorDict node.number template (node.types.map (↑)) none 0 []).isSome :=
      generateSensorDict_isSome (by simpa using htemplate)
    obtain ⟨dict, hdict⟩ := Option.isSome_iff_exists.mp hsome
    have hcreate : EdgeNode.create node.number (node.types.map (↑)) template =
        some { id := node.number, sensordict := dict } := by
      unfold EdgeNode.create
      rw [hdict]
      rfl
    exact ⟨_, hcreate, sameSensors_of_conditions hcreate hcount hentries (hown hentries) hgrouped hnames⟩

end Identity

/-- Distinct names lead each task to the sensor that lists it. -/
theorem ownNames_of_nodup {nodeAllocation : NodeAllocation} {node : NodeEntry} (hnode : node ∈ nodeAllocation)
    (hnodes : (nodeAllocation.map (·.number)).Nodup) (hsensors : (nodeAllocation.entries.map (·.number)).Nodup) :
    OwnNames nodeAllocation node := by
  intro appid task hlast hnumber first hfirst
  have htask : task ∈ nodeAllocation.placements := List.mem_reverse.mp (List.mem_of_find?_eq_some hlast)
  obtain ⟨node', hnode', htask⟩ := List.mem_flatMap.mp htask
  obtain ⟨sensor, hsensor, htask⟩ := List.mem_flatMap.mp htask
  obtain ⟨_, -, rfl⟩ := List.mem_map.mp htask
  obtain rfl : node' = node := List.inj_on_of_nodup_map hnodes hnode' hnode hnumber
  -- the sensor of the entry has a row, and no other row has its name
  have hpair : (sensor.number, sensor.sensortype) ∈
      (node'.collect node'.sensors {}).1.map fun row => (row.sensor, row.sensortype) := by
    rw [(node'.collect_eq node'.sensors {}).1]
    exact List.mem_map_of_mem hsensor
  obtain ⟨own, hown, heq⟩ := List.mem_map.mp hpair
  obtain ⟨hname, htype⟩ := Prod.ext_iff.mp heq
  have hrows : ((collect nodeAllocation).1.map (·.sensor)).Nodup := by
    have hnames := congrArg (List.map Prod.fst) (collect_eq nodeAllocation).1
    rw [List.map_map, List.map_map] at hnames
    have hcollected : (collect nodeAllocation).1.map (·.sensor) = nodeAllocation.entries.map (·.number) := hnames
    exact hcollected ▸ hsensors
  obtain rfl : first = own := by
    refine List.inj_on_of_nodup_map hrows (List.mem_of_find?_eq_some hfirst) (mem_collect_of_mem hnode hown) ?_
    exact (show first.sensor = sensor.number by simpa using List.find?_some hfirst).trans hname.symm
  exact List.mem_map.mpr ⟨first, hown, Prod.ext htype rfl⟩

/-- The templates of `run.py`. -/
def sensorTemplate : Int → Option Sensor
  | 1 => some { name := "Lidar", sensorType := 1, frameSize := 400, fps := 10, position := -1 }
  | 2 => some { name := "Camera", sensorType := 2, frameSize := 500, fps := 20, position := -1 }
  | 3 => some { name := "Thermal", sensorType := 3, frameSize := 160, fps := 20, position := -1 }
  | _ => none

/-- A lidar and a thermal camera. -/
def lidarThermal : NodeEntry := ⟨3, "testbed-03", [⟨3, 1, .list [3]⟩, ⟨4, 3, .list [4, 5]⟩]⟩

/-- A camera between two lidars. -/
def cameraBetween : NodeEntry := ⟨1, "testbed-01", [⟨1, 1, .list [1]⟩, ⟨2, 2, .list [2]⟩, ⟨3, 1, .list [3]⟩]⟩

/-- A lidar and a thermal camera on node 3. -/
theorem same_sensors_iff_lidarThermal :
    ∃ edgeNode, EdgeNode.create 3 [1, 3] sensorTemplate = some edgeNode ∧ SameSensors indoor lidarThermal edgeNode :=
  have hnode : lidarThermal ∈ indoor := List.mem_cons_of_mem _ (List.mem_cons_of_mem _ (List.mem_cons_self ..))
  (@same_sensors_iff indoor lidarThermal sensorTemplate hnode
    (fun _ => lt_of_le_of_lt List.count_le_length (by decide))).mpr
      ⟨by decide, by decide, by decide, ownNames_of_nodup hnode (by decide) (by decide)⟩

/-- Both lidars get the id 10101, and the second replaces the first. -/
theorem not_same_sensors_cameraBetween :
    ¬ ∃ edgeNode, EdgeNode.create 1 [1, 2, 1] sensorTemplate = some edgeNode ∧
      SameSensors [cameraBetween] cameraBetween edgeNode := by
  rintro ⟨edgeNode, hcreate, hsame⟩
  have hlength : (EdgeNode.create 1 [1, 2, 1] sensorTemplate).map (·.sensorIds.length) = some 2 := by decide
  rw [hcreate] at hlength
  exact absurd (hsame.one_each.symm.trans (Option.some.inj hlength)) (by decide)

end Soar.Dispatcher
