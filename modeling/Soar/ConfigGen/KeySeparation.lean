import Mathlib.Data.List.Nodup
import Soar.ConfigGen.Generator
import Soar.Library.Loops

/-! Whether the queues built from the generated configurations share a segment. -/
namespace Soar.ConfigGen
open Soar.Computing Soar.Library

def NodeAllocation.entries (nodeAllocation : NodeAllocation) : List SensorEntry := nodeAllocation.flatMap (·.sensors)

/-- The tasks of the file in its order, each with its node and sensor. -/
def NodeAllocation.placements (nodeAllocation : NodeAllocation) : List TaskRow :=
  nodeAllocation.flatMap fun node => node.sensors.flatMap node.taskRows

/-- A node allocation and deadlines as the generator expects them, with a result of `argsort`. -/
structure WellFormed (nodeAllocation : NodeAllocation) (deadline prioprityIndex : List Nat) : Prop where
  nodes : (nodeAllocation.map (·.number)).Nodup
  sensors : (nodeAllocation.entries.map (·.number)).Nodup
  sensors_range : ∀ s ∈ nodeAllocation.entries, 1 ≤ s.number ∧ s.number ≤ 99
  sensortypes : ∀ s ∈ nodeAllocation.entries, s.sensortype ∈ [1, 2, 3]
  tasks : (nodeAllocation.placements.map (·.task)).Nodup
  tasks_range : ∀ row ∈ nodeAllocation.placements, 1 ≤ row.task ∧ row.task ≤ 99
  covers : nodeAllocation.placements.length ≤ deadline.length
  argsort : prioprityIndex.Perm (List.range deadline.length)
  sorted : prioprityIndex.Pairwise fun i j => deadline.getD i 0 ≤ deadline.getD j 0

/-- Some task has the priority `p`. -/
def HasPriority (nodeAllocation : NodeAllocation) (prioprityIndex : List Nat) (p : Nat) : Prop :=
  ∃ taskNum < nodeAllocation.placements.length, prioprityIndex.idxOf taskNum + 1 = p

/-- The allocations in which a task's id or message key falls on a slot of another queue. -/
def Clashes (nodeAllocation : NodeAllocation) (prioprityIndex : List Nat) : Prop :=
  ∃ row ∈ nodeAllocation.placements,
    row.task ∈ [1, 2, 3, 4, 9, 10, 11, 12, 13, 15] ∧ HasPriority nodeAllocation prioprityIndex (10 * row.node) ∨
      row.task ∈ [10, 11, 20, 21, 30, 31] ∧
        HasPriority nodeAllocation prioprityIndex (100 * row.node + row.sensortype) ∨
      row.task = 1 ∧ row.node = 0 ∧ ∃ s ∈ nodeAllocation.entries, s.number = row.sensortype

/-- The offsets of the keys of a queue from its start. -/
def offsets : List Nat := [0, 1, 2, 3, 4, 9, 10, 11, 12, 13, 15]

theorem segmentKeys_eq (k : Nat) : segmentKeys k = offsets.map (k + ·) := by
  simp [segmentKeys, dataQueue, timeQueue, rearKey, lastDataKey, offsets, List.range_succ]

theorem mem_segmentKeys {k start : Nat} : k ∈ segmentKeys start ↔ ∃ d ∈ offsets, k = start + d := by
  simp [segmentKeys_eq, eq_comm]

private theorem le_of_mem_offsets {d : Nat} (h : d ∈ offsets) : d ≤ 15 := by
  simp only [offsets, List.mem_cons, List.not_mem_nil, or_false] at h
  omega

private theorem nodup_flatMap_segmentKeys {starts : List Nat}
    (h : starts.Pairwise fun x y => x + 15 < y ∨ y + 15 < x) : (starts.flatMap segmentKeys).Nodup := by
  refine List.nodup_flatMap.mpr ⟨fun start _ => ?_, h.imp fun {x y} hxy k hx hy => ?_⟩
  · rw [segmentKeys_eq]
    exact List.Nodup.map (add_right_injective start) (by decide)
  · obtain ⟨d, hd, rfl⟩ := mem_segmentKeys.mp hx
    obtain ⟨e, he, heq⟩ := mem_segmentKeys.mp hy
    have := le_of_mem_offsets hd
    have := le_of_mem_offsets he
    omega

section Collect

theorem NodeEntry.collect_eq (node : NodeEntry) (sensors : List SensorEntry) (counters : Counters) :
    (node.collect sensors counters).1.map (fun row => (row.sensor, row.sensortype)) =
        sensors.map (fun s => (s.number, s.sensortype)) ∧
      (node.collect sensors counters).2 = sensors.flatMap node.taskRows := by
  induction sensors generalizing counters with
  | nil => exact ⟨rfl, rfl⟩
  | cons sensor sensors ih =>
    obtain ⟨hsensors, htasks⟩ := ih (counters.count sensor.sensortype).1
    unfold NodeEntry.collect
    exact ⟨congrArg _ hsensors, by rw [List.flatMap_cons, ← htasks]⟩

/-- The loops list the sensors with their types, and the tasks of each in turn. -/
theorem collect_eq (nodeAllocation : NodeAllocation) :
    (collect nodeAllocation).1.map (fun row => (row.sensor, row.sensortype)) =
        nodeAllocation.entries.map (fun s => (s.number, s.sensortype)) ∧
      (collect nodeAllocation).2 = nodeAllocation.placements := by
  induction nodeAllocation with
  | nil => exact ⟨rfl, rfl⟩
  | cons node nodes ih =>
    obtain ⟨hsensors, htasks⟩ := node.collect_eq node.sensors {}
    unfold collect
    unfold NodeAllocation.entries NodeAllocation.placements at *
    simp only [List.map_append, List.flatMap_cons, hsensors, htasks, ih.1, ih.2, and_self]

theorem prioprity_eq {deadline prioprityIndex : List Nat}
    (h : prioprityIndex.Perm (List.range deadline.length)) :
    prioprity deadline prioprityIndex =
      some ((List.range deadline.length).map fun i => prioprityIndex.idxOf i + 1) :=
  mapM_eq_map fun _ hi => if_pos (h.mem_iff.mpr hi)

end Collect

/-- The starts of the queues that belong to a task of priority `p`. -/
def appStarts (p : Nat) : List Nat := [p * 1000 + 100, p * 1000 + 200, p * 1000 + 300]

def frontKeys (row : TaskRow) : List Nat := [row.appid, row.appid * 10 + 1, row.appid * 10 + 2, row.appid * 10 + 3]

private theorem TaskRow.config_keys {row : TaskRow} {sensorRows : List SensorRow} {deadline priority : Nat}
    {app : AppConfig} (h : row.config sensorRows deadline priority = some app) :
    app.starts = some (appStarts priority) ∧ app.frontKeys = some (frontKeys row) := by
  unfold TaskRow.config at h
  obtain ⟨sensorRow, -, h⟩ := Option.bind_eq_some_iff.mp h
  split_ifs at h
  obtain rfl := Option.some.inj h
  constructor
  · simp only [AppConfig.starts, List.mapM_cons, List.mapM_nil, int?_str_append]
    rfl
  · simp only [AppConfig.frontKeys, List.mapM_cons, List.mapM_nil, int?_str_append, int?_str]
    rfl

def NodeAllocation.sensorStarts (nodeAllocation : NodeAllocation) : List Nat :=
  nodeAllocation.entries.map fun s => s.number * 1000

def NodeAllocation.taskStarts (nodeAllocation : NodeAllocation) (prioprityIndex : List Nat) : List Nat :=
  nodeAllocation.placements.zipIdx.flatMap fun row => appStarts (prioprityIndex.idxOf row.2 + 1)

/-- The keys of the generated configurations, from the node allocation. -/
theorem generate_keys {nodeAllocation : NodeAllocation} {deadline prioprityIndex : List Nat}
    (h : WellFormed nodeAllocation deadline prioprityIndex) {c : Configs}
    (hc : generate nodeAllocation deadline prioprityIndex = some c) :
    c.keys = some ((nodeAllocation.sensorStarts ++ nodeAllocation.taskStarts prioprityIndex).flatMap segmentKeys ++
      nodeAllocation.placements.flatMap frontKeys) := by
  obtain ⟨hsensors, htasks⟩ := collect_eq nodeAllocation
  unfold generate at hc
  simp only [prioprity_eq h.argsort, Option.bind_eq_bind, Option.bind_some] at hc
  split_ifs at hc
  obtain ⟨sensors, hs, hc⟩ := Option.bind_eq_some_iff.mp hc
  obtain ⟨apps, ha, hc⟩ := Option.bind_eq_some_iff.mp hc
  obtain rfl := Option.some.inj hc
  have hsensorStarts : sensors.mapM (fun sensor => int? sensor.start) = some nodeAllocation.sensorStarts := by
    have hstarts := mapM_of_mapM (h := fun sensor => int? sensor.start) hs (g := SensorRow.start) (by
      intro row _ sensor hrow
      unfold SensorRow.config at hrow
      split_ifs at hrow
      obtain rfl := Option.some.inj hrow
      exact int?_str row.start)
    rw [hstarts]
    have hrows := congrArg (List.map fun p : Nat × Nat => p.1 * 1000) hsensors
    rw [List.map_map, List.map_map] at hrows
    exact congrArg some hrows
  have hkeys : ∀ row ∈ (collect nodeAllocation).2.zipIdx, ∀ app : AppConfig,
      ((deadline[row.2]?).bind fun d => (((List.range deadline.length).map fun i =>
        prioprityIndex.idxOf i + 1)[row.2]?).bind fun p => row.1.config (collect nodeAllocation).1 d p) = some app →
      app.starts = some (appStarts (prioprityIndex.idxOf row.2 + 1)) ∧ app.frontKeys = some (frontKeys row.1) := by
    intro row _ app happ
    obtain ⟨d, hd, happ⟩ := Option.bind_eq_some_iff.mp happ
    obtain ⟨p, hp, happ⟩ := Option.bind_eq_some_iff.mp happ
    obtain ⟨hlt, -⟩ := List.getElem?_eq_some_iff.mp hd
    rw [List.getElem?_map, List.getElem?_range hlt] at hp
    obtain rfl := Option.some.inj hp
    exact TaskRow.config_keys happ
  have hstarts := mapM_of_mapM ha fun row hrow app happ => (hkeys row hrow app happ).1
  have hfronts := mapM_of_mapM ha fun row hrow app happ => (hkeys row hrow app happ).2
  unfold Configs.keys
  simp only [hsensorStarts, hstarts, hfronts, Option.bind_eq_bind, Option.bind_some]
  rw [htasks]
  have hzip : nodeAllocation.placements.zipIdx.map (fun row => frontKeys row.1) =
      nodeAllocation.placements.map frontKeys := by
    have hfst := congrArg (List.map frontKeys) (List.zipIdx_map_fst 0 nodeAllocation.placements)
    rwa [List.map_map] at hfst
  rw [hzip]
  rfl

section Separation

variable {nodeAllocation : NodeAllocation} {deadline prioprityIndex : List Nat}

private theorem WellFormed.sensortype (h : WellFormed nodeAllocation deadline prioprityIndex) {row : TaskRow}
    (hrow : row ∈ nodeAllocation.placements) : 1 ≤ row.sensortype ∧ row.sensortype ≤ 3 := by
  obtain ⟨node, hnode, hrow⟩ := List.mem_flatMap.mp hrow
  obtain ⟨sensor, hsensor, hrow⟩ := List.mem_flatMap.mp hrow
  obtain ⟨task, -, rfl⟩ := List.mem_map.mp hrow
  have htype := h.sensortypes sensor (List.mem_flatMap.mpr ⟨node, hnode, hsensor⟩)
  simp only [List.mem_cons, List.not_mem_nil, or_false] at htype
  dsimp only
  omega

private theorem WellFormed.idxOf_inj (h : WellFormed nodeAllocation deadline prioprityIndex) {i j : Nat}
    (hi : i < nodeAllocation.placements.length) (heq : prioprityIndex.idxOf i = prioprityIndex.idxOf j) : i = j := by
  have hmem : i ∈ prioprityIndex := h.argsort.mem_iff.mpr (List.mem_range.mpr (hi.trans_le h.covers))
  exact (List.idxOf_inj hmem).mp heq

private theorem WellFormed.starts_far (h : WellFormed nodeAllocation deadline prioprityIndex) :
    (nodeAllocation.sensorStarts ++ nodeAllocation.taskStarts prioprityIndex).Pairwise
      fun x y => x + 15 < y ∨ y + 15 < x := by
  refine List.pairwise_append.mpr ⟨?_, ?_, ?_⟩
  · refine List.pairwise_map.mpr ((List.pairwise_map.mp h.sensors).imp fun {s t} hne => ?_)
    omega
  · refine List.pairwise_flatMap.mpr ⟨fun row _ => ?_, ?_⟩
    · simp only [appStarts, List.pairwise_cons, List.mem_cons, List.not_mem_nil, or_false, forall_eq_or_imp, forall_eq,
        false_imp_iff, implies_true, List.Pairwise.nil, and_true]
      omega
    · have hpair : nodeAllocation.placements.zipIdx.Pairwise fun x y => x.2 < y.2 := by
        have hrange := List.pairwise_lt_range' (s := 0) (n := nodeAllocation.placements.length)
        rw [← List.zipIdx_map_snd 0 nodeAllocation.placements] at hrange
        exact List.pairwise_map.mp hrange
      refine hpair.imp_of_mem fun {x y} hx _ hlt a ha b hb => ?_
      have hx' := (List.mem_zipIdx hx).2.1
      have hne : prioprityIndex.idxOf x.2 ≠ prioprityIndex.idxOf y.2 :=
        fun heq => hlt.ne (h.idxOf_inj (by omega) heq)
      simp only [appStarts, List.mem_cons, List.not_mem_nil, or_false] at ha hb
      omega
  · intro a ha b hb
    obtain ⟨s, -, rfl⟩ := List.mem_map.mp ha
    obtain ⟨row, -, hb⟩ := List.mem_flatMap.mp hb
    simp only [appStarts, List.mem_cons, List.not_mem_nil, or_false] at hb
    omega

private theorem WellFormed.nodup_frontKeys (h : WellFormed nodeAllocation deadline prioprityIndex) :
    (nodeAllocation.placements.flatMap frontKeys).Nodup := by
  refine List.pairwise_flatMap.mpr ⟨fun row hrow => ?_, ?_⟩
  · have htask := h.tasks_range row hrow
    simp only [frontKeys, TaskRow.appid, List.pairwise_cons, List.mem_cons, List.not_mem_nil, or_false,
      forall_eq_or_imp, forall_eq, false_imp_iff, implies_true, List.Pairwise.nil, and_true]
    omega
  · refine (List.pairwise_map.mp h.tasks).imp_of_mem fun {x y} hx hy hne a ha b hb => ?_
    have htx := h.tasks_range x hx
    have hty := h.tasks_range y hy
    have hsx := h.sensortype hx
    have hsy := h.sensortype hy
    simp only [frontKeys, TaskRow.appid, List.mem_cons, List.not_mem_nil, or_false] at ha hb
    omega

private theorem mem_taskStarts {start : Nat} : start ∈ nodeAllocation.taskStarts prioprityIndex ↔
    ∃ p, HasPriority nodeAllocation prioprityIndex p ∧ ∃ i, 1 ≤ i ∧ i ≤ 3 ∧ start = p * 1000 + i * 100 := by
  constructor
  · intro hstart
    obtain ⟨row, hrow, hstart⟩ := List.mem_flatMap.mp hstart
    have hlt := (List.mem_zipIdx hrow).2.1
    refine ⟨_, ⟨row.2, by omega, rfl⟩, ?_⟩
    simp only [appStarts, List.mem_cons, List.not_mem_nil, or_false] at hstart
    rcases hstart with rfl | rfl | rfl
    · exact ⟨1, by omega, by omega, rfl⟩
    · exact ⟨2, by omega, by omega, rfl⟩
    · exact ⟨3, by omega, by omega, rfl⟩
  · rintro ⟨p, ⟨taskNum, hlt, rfl⟩, i, hi, hi', rfl⟩
    refine List.mem_flatMap.mpr ⟨(nodeAllocation.placements[taskNum], taskNum), ?_, ?_⟩
    · exact List.mem_zipIdx_iff_getElem?.mpr (List.getElem?_eq_getElem hlt)
    · simp only [appStarts, List.mem_cons, List.not_mem_nil, or_false]
      omega

private theorem WellFormed.clashes_of_sensorStart (h : WellFormed nodeAllocation deadline prioprityIndex)
    {k start : Nat}
    (hstart : start ∈ nodeAllocation.sensorStarts) (hk : k ∈ segmentKeys start) {row : TaskRow}
    (hrow : row ∈ nodeAllocation.placements) (hfront : k ∈ frontKeys row) :
    row.task = 1 ∧ row.node = 0 ∧ ∃ s ∈ nodeAllocation.entries, s.number = row.sensortype := by
  obtain ⟨s, hs, rfl⟩ := List.mem_map.mp hstart
  obtain ⟨d, hd, rfl⟩ := mem_segmentKeys.mp hk
  have hd15 := le_of_mem_offsets hd
  have hsensor := h.sensors_range s hs
  have htask := h.tasks_range row hrow
  have htype := h.sensortype hrow
  simp only [frontKeys, TaskRow.appid, List.mem_cons, List.not_mem_nil, or_false] at hfront
  exact ⟨by omega, by omega, s, hs, by omega⟩

private theorem WellFormed.clashes_of_taskStart (h : WellFormed nodeAllocation deadline prioprityIndex) {k start : Nat}
    (hstart : start ∈ nodeAllocation.taskStarts prioprityIndex) (hk : k ∈ segmentKeys start) {row : TaskRow}
    (hrow : row ∈ nodeAllocation.placements) (hfront : k ∈ frontKeys row) :
    row.task ∈ [1, 2, 3, 4, 9, 10, 11, 12, 13, 15] ∧ HasPriority nodeAllocation prioprityIndex (10 * row.node) ∨
      row.task ∈ [10, 11, 20, 21, 30, 31] ∧
        HasPriority nodeAllocation prioprityIndex (100 * row.node + row.sensortype) := by
  obtain ⟨p, hp, i, hi, hi', rfl⟩ := mem_taskStarts.mp hstart
  obtain ⟨d, hd, rfl⟩ := mem_segmentKeys.mp hk
  have htask := h.tasks_range row hrow
  have htype := h.sensortype hrow
  simp only [offsets, List.mem_cons, List.not_mem_nil, or_false] at hd
  simp only [frontKeys, TaskRow.appid, List.mem_cons, List.not_mem_nil, or_false] at hfront
  simp only [List.mem_cons, List.not_mem_nil, or_false]
  rcases hfront with hid | hmsg
  · have hpriority : p = 10 * row.node := by omega
    refine .inl ⟨by omega, hpriority ▸ hp⟩
  · have hpriority : p = 100 * row.node + row.sensortype := by omega
    refine .inr ⟨by omega, hpriority ▸ hp⟩

private theorem WellFormed.exists_shared_iff (h : WellFormed nodeAllocation deadline prioprityIndex) :
    (∃ k, k ∈ (nodeAllocation.sensorStarts ++ nodeAllocation.taskStarts prioprityIndex).flatMap segmentKeys ∧
      k ∈ nodeAllocation.placements.flatMap frontKeys) ↔ Clashes nodeAllocation prioprityIndex := by
  constructor
  · rintro ⟨k, hsegment, hfront⟩
    obtain ⟨start, hstart, hk⟩ := List.mem_flatMap.mp hsegment
    obtain ⟨row, hrow, hfront⟩ := List.mem_flatMap.mp hfront
    rcases List.mem_append.mp hstart with hsensor | htask
    · exact ⟨row, hrow, .inr (.inr (h.clashes_of_sensorStart hsensor hk hrow hfront))⟩
    · exact ⟨row, hrow, (h.clashes_of_taskStart htask hk hrow hfront).imp_right .inl⟩
  · rintro ⟨row, hrow, hclash⟩
    have htype := h.sensortype hrow
    have hfront : ∀ k ∈ frontKeys row, k ∈ nodeAllocation.placements.flatMap frontKeys :=
      fun k hk => List.mem_flatMap.mpr ⟨row, hrow, hk⟩
    rcases hclash with ⟨htask, hp⟩ | ⟨htask, hp⟩ | ⟨htask, hnode, s, hs, hsensor⟩
    · refine ⟨row.appid, List.mem_flatMap.mpr ⟨10 * row.node * 1000 + row.sensortype * 100, ?_, ?_⟩,
        hfront _ (List.mem_cons_self ..)⟩
      · exact List.mem_append_right _ (mem_taskStarts.mpr ⟨_, hp, row.sensortype, htype.1, htype.2, rfl⟩)
      · refine mem_segmentKeys.mpr ⟨row.task, ?_, ?_⟩
        · simp only [offsets, List.mem_cons, List.not_mem_nil, or_false] at htask ⊢
          omega
        · unfold TaskRow.appid
          omega
    · refine ⟨row.appid * 10 + 1, List.mem_flatMap.mpr
        ⟨(100 * row.node + row.sensortype) * 1000 + row.task / 10 * 100, ?_, ?_⟩, hfront _ (by simp [frontKeys])⟩
      · refine List.mem_append_right _ (mem_taskStarts.mpr ⟨_, hp, row.task / 10, ?_, ?_, rfl⟩)
        · simp only [List.mem_cons, List.not_mem_nil, or_false] at htask
          omega
        · simp only [List.mem_cons, List.not_mem_nil, or_false] at htask
          omega
      · refine mem_segmentKeys.mpr ⟨row.task % 10 * 10 + 1, ?_, ?_⟩
        · simp only [offsets, List.mem_cons, List.not_mem_nil, or_false] at htask ⊢
          omega
        · unfold TaskRow.appid
          omega
    · refine ⟨row.appid * 10 + 1, List.mem_flatMap.mpr ⟨s.number * 1000, ?_, ?_⟩, hfront _ (by simp [frontKeys])⟩
      · exact List.mem_append_left _ (List.mem_map.mpr ⟨s, hs, rfl⟩)
      · refine mem_segmentKeys.mpr ⟨11, by decide, ?_⟩
        unfold TaskRow.appid
        omega

end Separation

/-- The keys of the generated configurations are pairwise distinct exactly if no id and no message
key of a task falls on a queue. -/
theorem nodup_keys_iff {nodeAllocation : NodeAllocation} {deadline prioprityIndex : List Nat}
    (h : WellFormed nodeAllocation deadline prioprityIndex) {c : Configs}
    (hc : generate nodeAllocation deadline prioprityIndex = some c) :
    (∃ keys, c.keys = some keys ∧ keys.Nodup) ↔ ¬ Clashes nodeAllocation prioprityIndex := by
  have hnodup : ((nodeAllocation.sensorStarts ++ nodeAllocation.taskStarts prioprityIndex).flatMap segmentKeys ++
      nodeAllocation.placements.flatMap frontKeys).Nodup ↔
      ∀ a ∈ (nodeAllocation.sensorStarts ++ nodeAllocation.taskStarts prioprityIndex).flatMap segmentKeys,
        ∀ b ∈ nodeAllocation.placements.flatMap frontKeys, a ≠ b := by
    rw [List.nodup_append]
    exact (and_iff_right (nodup_flatMap_segmentKeys h.starts_far)).trans (and_iff_right h.nodup_frontKeys)
  rw [generate_keys h hc, ← h.exists_shared_iff]
  constructor
  · rintro ⟨keys, heq, hdistinct⟩ ⟨k, hsegment, hfront⟩
    obtain rfl := Option.some.inj heq
    exact hnodup.mp hdistinct k hsegment k hfront rfl
  · intro hnone
    exact ⟨_, rfl, hnodup.mpr fun a ha b hb hab => hnone ⟨a, ha, hab ▸ hb⟩⟩

/-- The indoor node allocation. -/
def indoor : NodeAllocation :=
  [⟨1, "testbed-01", [⟨1, 1, .list [1]⟩, ⟨2, 2, .list [2]⟩]⟩, ⟨2, "testbed-02", []⟩,
    ⟨3, "testbed-03", [⟨3, 1, .list [3]⟩, ⟨4, 3, .list [4, 5]⟩]⟩]

/-- Ten tasks on the lidar of node 1. -/
def tenTasks : NodeAllocation := [⟨1, "testbed-01", [⟨1, 1, .list [1, 2, 3, 4, 5, 6, 7, 8, 9, 10]⟩]⟩]

/-- No two queues of the indoor allocation share a segment. -/
theorem nodup_keys_iff_indoor :
    ∃ c keys, generate indoor [249, 301, 245, 248, 252] [2, 3, 0, 4, 1] = some c ∧ c.keys = some keys ∧
      keys.Nodup := by
  have hformed : WellFormed indoor [249, 301, 245, 248, 252] [2, 3, 0, 4, 1] := by
    constructor <;> decide
  have hsome : (generate indoor [249, 301, 245, 248, 252] [2, 3, 0, 4, 1]).isSome = true := by
    decide +kernel
  have hclashes : ¬ Clashes indoor [2, 3, 0, 4, 1] := by
    unfold Clashes HasPriority
    decide +kernel
  obtain ⟨c, hc⟩ := Option.isSome_iff_exists.mp hsome
  obtain ⟨keys, hkeys, hnodup⟩ := (nodup_keys_iff hformed hc).mpr hclashes
  exact ⟨c, keys, hc, hkeys, hnodup⟩

/-- The task of the tenth priority has `pre_start` 10100, so the first data keys of its queue are
10100 to 10104, and 10101 is the id of task 1. -/
theorem not_nodup_keys_tenTasks :
    WellFormed tenTasks [100, 101, 102, 103, 104, 105, 106, 107, 108, 109] (List.range 10) ∧
      ∃ c keys, generate tenTasks [100, 101, 102, 103, 104, 105, 106, 107, 108, 109] (List.range 10) = some c ∧
        c.keys = some keys ∧ ¬ keys.Nodup := by
  have hkeys : ((generate tenTasks [100, 101, 102, 103, 104, 105, 106, 107, 108, 109] (List.range 10)).bind
      (·.keys)).any (fun keys => ¬ keys.Nodup) = true := by
    decide +kernel
  refine ⟨by constructor <;> decide, ?_⟩
  cases hc : generate tenTasks [100, 101, 102, 103, 104, 105, 106, 107, 108, 109] (List.range 10) with
  | none =>
    rw [hc] at hkeys
    cases hkeys
  | some c =>
    rw [hc, Option.bind_some] at hkeys
    cases hk : c.keys with
    | none =>
      rw [hk] at hkeys
      cases hkeys
    | some keys =>
      rw [hk] at hkeys
      exact ⟨c, keys, rfl, hk, of_decide_eq_true hkeys⟩

end Soar.ConfigGen
