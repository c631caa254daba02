import Mathlib.Data.List.Induction
import Soar.Dispatcher.SensorDict

/-! The inventory of sensors that the network keeps for its nodes. -/
namespace Soar.Dispatcher

/-- `_node_list2dict`: a later node takes the place of an earlier one with its id. -/
def nodeList2dict (lampposts : List EdgeNode) : List (Int × EdgeNode) :=
  lampposts.foldl (fun nodes lamppost => updateKey lamppost (fun _ => lamppost) lamppost.id nodes) []

theorem nodeList2dict_concat (lampposts : List EdgeNode) (lamppost : EdgeNode) :
    nodeList2dict (lampposts ++ [lamppost]) =
      updateKey lamppost (fun _ => lamppost) lamppost.id (nodeList2dict lampposts) := by
  unfold nodeList2dict
  rw [List.foldl_append, List.foldl_cons, List.foldl_nil]

theorem nodup_keys_nodeList2dict (lampposts : List EdgeNode) : ((nodeList2dict lampposts).map Prod.fst).Nodup := by
  induction lampposts using List.reverseRecOn with
  | nil => exact List.nodup_nil
  | append_singleton lampposts lamppost ih =>
    rw [nodeList2dict_concat]
    exact nodup_keys_updateKey ih

/-- Each node is kept under its own id. -/
theorem mem_nodeList2dict {lampposts : List EdgeNode} {entry : Int × EdgeNode} (h : entry ∈ nodeList2dict lampposts) :
    entry.1 = entry.2.id ∧ entry.2 ∈ lampposts := by
  induction lampposts using List.reverseRecOn with
  | nil => cases h
  | append_singleton lampposts lamppost ih =>
    rw [nodeList2dict_concat] at h
    rcases mem_updateKey h with h | ⟨_, rfl⟩
    · exact (ih h).imp_right (List.mem_append_left _)
    · exact ⟨rfl, List.mem_append_right _ (List.mem_singleton_self _)⟩

theorem nodup_ids_nodeList2dict (lampposts : List EdgeNode) :
    (((nodeList2dict lampposts).map Prod.snd).map (·.id)).Nodup := by
  have hids : ((nodeList2dict lampposts).map Prod.snd).map (·.id) = (nodeList2dict lampposts).map Prod.fst := by
    rw [List.map_map]
    exact List.map_congr_left fun entry hentry => (mem_nodeList2dict hentry).1.symm
  rw [hids]
  exact nodup_keys_nodeList2dict lampposts

/-- `EdgeNodeNetwork.__init__` on a list. -/
def EdgeNodeNetwork.create (lampposts : List EdgeNode) : EdgeNodeNetwork where
  nodes := (nodeList2dict lampposts).map Prod.snd
  nodup := nodup_ids_nodeList2dict lampposts

theorem mem_of_mem_create {lampposts : List EdgeNode} {node : EdgeNode}
    (h : node ∈ (EdgeNodeNetwork.create lampposts).nodes) : node ∈ lampposts := by
  obtain ⟨entry, hentry, rfl⟩ := List.mem_map.mp h
  exact (mem_nodeList2dict hentry).2

/-- The sensor types that a node has. -/
def EdgeNode.types (node : EdgeNode) : List Int := node.sensordict.map Prod.fst

/-- `len(sensors[sensor])`. -/
def EdgeNode.numSensors (node : EdgeNode) (sensorType : Int) : Nat :=
  ((node.sensordict.lookup sensorType).getD []).length

/-- The inner loop of `_update_sensor_position`: every type is assigned a dictionary of its own. -/
def EdgeNode.updateSensorPosition (node : EdgeNode) (sensors : SensorDict)
    (positions : List (Int × List (Int × Nat))) : List (Int × List (Int × Nat)) :=
  sensors.foldl (fun positions sensor =>
    updateKey [] (fun _ => [(sensor.1, node.numSensors sensor.1)]) node.id positions) positions

/-- `_update_sensor_position`, which fills `get_sensor_positions`. -/
def EdgeNodeNetwork.sensorPositions (network : EdgeNodeNetwork) : List (Int × List (Int × Nat)) :=
  network.nodes.foldl (fun positions node => node.updateSensorPosition node.sensordict positions) []

/-- `get_sensor_positions[id][sensor_type]`, which raises on a missing key. -/
def EdgeNodeNetwork.sensorPosition (network : EdgeNodeNetwork) (id sensorType : Int) : Option Nat :=
  (network.sensorPositions.lookup id).bind (·.lookup sensorType)

/-- All sensors of the node are of one type. -/
def EdgeNode.OneType (node : EdgeNode) : Prop := ∀ t ∈ node.types, ∀ u ∈ node.types, t = u

section Positions

variable {node : EdgeNode} {positions : List (Int × List (Int × Nat))}

theorem EdgeNode.updateSensorPosition_of_ne {id : Int} (sensors : SensorDict) (h : id ≠ node.id) :
    (node.updateSensorPosition sensors positions).lookup id = positions.lookup id := by
  induction sensors generalizing positions with
  | nil => rfl
  | cons sensor sensors ih => exact ih.trans ((lookup_updateKey ..).trans (if_neg h))

/-- The last type of a node is the only one that is kept. -/
theorem EdgeNode.updateSensorPosition_self (sensors : SensorDict) (sensor : Int × List (Int × Sensor)) :
    (node.updateSensorPosition (sensors ++ [sensor]) positions).lookup node.id =
      some [(sensor.1, node.numSensors sensor.1)] := by
  unfold EdgeNode.updateSensorPosition
  rw [List.foldl_append, List.foldl_cons, List.foldl_nil, lookup_updateKey, if_pos rfl]

private theorem foldl_updateSensorPosition_of_ne {nodes : List EdgeNode} {id : Int} (h : id ∉ nodes.map (·.id)) :
    (nodes.foldl (fun positions node => node.updateSensorPosition node.sensordict positions) positions).lookup id =
      positions.lookup id := by
  induction nodes generalizing positions with
  | nil => rfl
  | cons n nodes ih =>
    rw [List.map_cons, List.mem_cons, not_or] at h
    exact (ih h.2).trans (EdgeNode.updateSensorPosition_of_ne _ h.1)

private theorem foldl_updateSensorPosition_of_mem {nodes : List EdgeNode} (hnodup : (nodes.map (·.id)).Nodup)
    (hnode : node ∈ nodes) {sensors : SensorDict} {sensor : Int × List (Int × Sensor)}
    (hsensors : node.sensordict = sensors ++ [sensor]) :
    (nodes.foldl (fun positions node => node.updateSensorPosition node.sensordict positions) positions).lookup
      node.id = some [(sensor.1, node.numSensors sensor.1)] := by
  induction nodes generalizing positions with
  | nil => cases hnode
  | cons n nodes ih =>
    obtain ⟨hn, hnodup⟩ := List.nodup_cons.mp hnodup
    rcases List.mem_cons.mp hnode with rfl | hnode
    · rw [List.foldl_cons, foldl_updateSensorPosition_of_ne hn, hsensors]
      exact EdgeNode.updateSensorPosition_self sensors sensor
    · exact ih hnodup hnode

end Positions

/-- What the inventory says of a node whose last type is that of `sensor`. -/
theorem EdgeNodeNetwork.sensorPosition_eq {network : EdgeNodeNetwork} {node : EdgeNode} (hnode : node ∈ network.nodes)
    {sensors : SensorDict} {sensor : Int × List (Int × Sensor)} (hsensors : node.sensordict = sensors ++ [sensor])
    (t : Int) : network.sensorPosition node.id t = if t = sensor.1 then some (node.numSensors t) else none := by
  unfold EdgeNodeNetwork.sensorPosition EdgeNodeNetwork.sensorPositions
  rw [foldl_updateSensorPosition_of_mem network.nodup hnode hsensors, Option.bind_some, List.lookup_cons]
  by_cases ht : t = sensor.1
  · simp [ht]
  · rw [beq_false_of_ne ht, if_neg ht, List.lookup_nil]

private theorem EdgeNodeNetwork.sensorPosition_iff {network : EdgeNodeNetwork} {node : EdgeNode}
    (hnode : node ∈ network.nodes) {number : Int → Nat}
    (hnumber : node.OneType → ∀ t ∈ node.types, number t = node.numSensors t) :
    (∀ t ∈ node.types, network.sensorPosition node.id t = some (number t)) ↔ node.OneType := by
  rcases List.eq_nil_or_concat node.sensordict with hnil | ⟨sensors, sensor, hsensors⟩
  · simp [EdgeNode.OneType, EdgeNode.types, hnil]
  · rw [List.concat_eq_append] at hsensors
    have hlast : sensor.1 ∈ node.types := by simp [EdgeNode.types, hsensors]
    constructor
    · intro h
      have hsome : ∀ t ∈ node.types, t = sensor.1 := by
        intro t ht
        have hright := h t ht
        rw [network.sensorPosition_eq hnode hsensors] at hright
        by_contra hne
        rw [if_neg hne] at hright
        cases hright
      intro t ht u hu
      rw [hsome t ht, hsome u hu]
    · intro h t ht
      rw [network.sensorPosition_eq hnode hsensors, if_pos (h t ht _ hlast), hnumber h t ht]

section Created

variable {id : Int} {template : Int → Option Sensor} {sensors : List Int} {lastType : Option Int} {count : Nat}
  {dict dict' : SensorDict}

theorem generateSensorDict_keys (h : generateSensorDict id template sensors lastType count dict = some dict')
    (t : Int) :
    t ∈ dict'.map Prod.fst ↔ t ∈ sensors ∨ t ∈ dict.map Prod.fst := by
  induction sensors generalizing lastType count dict with
  | nil =>
    obtain rfl := Option.some.inj h
    exact (or_iff_right List.not_mem_nil).symm
  | cons sensorType sensors ih =>
    unfold generateSensorDict at h
    obtain ⟨sensor, -, h⟩ := Option.bind_eq_some_iff.mp h
    rw [ih h, SensorDict.set, keys_updateKey]
    split_ifs with hmem
    · rw [List.mem_cons]
      constructor
      · exact Or.imp_left .inr
      · rintro ((rfl | ht) | ht)
        · exact .inr hmem
        · exact .inl ht
        · exact .inr ht
    · rw [List.mem_append, List.mem_singleton, List.mem_cons]
      tauto

theorem generateSensorDict_nodup (h : generateSensorDict id template sensors lastType count dict = some dict')
    (hnodup : (dict.map Prod.fst).Nodup) : (dict'.map Prod.fst).Nodup := by
  induction sensors generalizing lastType count dict with
  | nil =>
    obtain rfl := Option.some.inj h
    exact hnodup
  | cons sensorType sensors ih =>
    unfold generateSensorDict at h
    obtain ⟨sensor, -, h⟩ := Option.bind_eq_some_iff.mp h
    exact ih h (nodup_keys_updateKey hnodup)

/-- Sensors of one type are numbered in a row. -/
theorem assigned_replicate (id t : Int) (n count : Nat) (h : lastType = some t ∨ count = 0) :
    assigned id (List.replicate n t) lastType count =
      (List.range' count n).map fun (c : Nat) => (t, id * 10000 + t * 100 + c + 1) := by
  induction n generalizing lastType count with
  | zero => rfl
  | succ n ih =>
    have hcount : (if some t = lastType then count else 0) = count := by
      rcases h with rfl | rfl
      · exact if_pos rfl
      · exact ite_self 0
    rw [List.replicate_succ, List.range'_succ, List.map_cons, ← ih (count + 1) (.inl rfl), assigned, hcount]

end Created

private theorem numSensors_eq_length {node : EdgeNode} (hnodup : node.types.Nodup) (hone : node.OneType) {t : Int}
    (ht : t ∈ node.types) : node.numSensors t = (SensorDict.sensorIds node.sensordict).length := by
  unfold EdgeNode.OneType EdgeNode.types EdgeNode.numSensors SensorDict.sensorIds at *
  match hdict : node.sensordict with
  | [] =>
    rw [hdict] at ht
    cases ht
  | [(u, sensors)] =>
    rw [hdict] at ht
    obtain rfl : t = u := List.mem_singleton.mp ht
    simp
  | (u, _) :: (v, _) :: _ =>
    rw [hdict] at hnodup hone
    have huv := hone u (List.mem_cons_self ..) v (List.mem_cons_of_mem _ (List.mem_cons_self ..))
    exact absurd (huv ▸ List.mem_cons_self ..) (List.nodup_cons.mp hnodup).1

/-- A node that was given sensors of one type keeps all of them. -/
theorem EdgeNode.count_eq_numSensors {id : Int} {sensors : List Int} {template : Int → Option Sensor} {node : EdgeNode}
    (hcreate : EdgeNode.create id sensors template = some node) (hone : node.OneType) {t : Int} (ht : t ∈ node.types) :
    sensors.count t = node.numSensors t := by
  obtain ⟨dict, hdict, hnode⟩ := Option.bind_eq_some_iff.mp hcreate
  obtain rfl := Option.some.inj hnode
  have hsensors : sensors = List.replicate sensors.length t :=
    List.eq_replicate_of_mem fun u hu => hone u ((generateSensorDict_keys hdict u).mpr (.inl hu)) t ht
  have hnodup : ((assigned id sensors none 0).map Prod.snd ++ SensorDict.sensorIds []).Nodup := by
    rw [hsensors, assigned_replicate id t _ 0 (.inr rfl), List.map_map]
    refine (List.append_nil _).symm ▸ List.Nodup.map (fun c d hcd => ?_) List.nodup_range'
    simpa using hcd
  have hnil : (([] : SensorDict).map Prod.fst).Nodup := List.nodup_nil
  have hkeys : ({ id := id, sensordict := dict } : EdgeNode).types.Nodup := generateSensorDict_nodup hdict hnil
  rw [numSensors_eq_length hkeys hone ht,
    (generateSensorDict_perm hdict hnodup).length_eq, List.length_append, List.length_map, length_assigned]
  conv_lhs => rw [hsensors]
  exact List.count_replicate_self

/-- The inventory is right about every node exactly if no node has two sensor types, whether a
sensor is counted where a node keeps it or where it was installed. -/
theorem sensorPositions_right_iff (lampposts : List EdgeNode) :
    ((∀ node ∈ (EdgeNodeNetwork.create lampposts).nodes, ∀ t ∈ node.types,
        (EdgeNodeNetwork.create lampposts).sensorPosition node.id t = some (node.numSensors t)) ↔
      ∀ node ∈ (EdgeNodeNetwork.create lampposts).nodes, node.OneType) ∧
    ∀ (template : Int → Option Sensor) (installed : EdgeNode → List Int),
      (∀ node ∈ lampposts, EdgeNode.create node.id (installed node) template = some node) →
        ((∀ node ∈ (EdgeNodeNetwork.create lampposts).nodes, ∀ t ∈ node.types,
            (EdgeNodeNetwork.create lampposts).sensorPosition node.id t = some ((installed node).count t)) ↔
          ∀ node ∈ (EdgeNodeNetwork.create lampposts).nodes, node.OneType) := by
  constructor
  · exact forall₂_congr fun node hnode => EdgeNodeNetwork.sensorPosition_iff hnode fun _ _ _ => rfl
  · intro template installed hinstalled
    refine forall₂_congr fun node hnode => EdgeNodeNetwork.sensorPosition_iff hnode fun hone t ht => ?_
    exact EdgeNode.count_eq_numSensors (hinstalled node (mem_of_mem_create hnode)) hone ht

/-- A node with one lidar and two thermal cameras. -/
def lidarAndTwoThermals : EdgeNode where
  id := 1
  sensordict := [(1, [(10101, ⟨"lidar", 1, 0, 10, 1, 10101⟩)]),
    (3, [(10301, ⟨"thermal", 3, 0, 10, 1, 10301⟩), (10302, ⟨"thermal", 3, 0, 10, 1, 10302⟩)])]

/-- The inventory forgets the lidar when it comes to the thermal cameras. -/
theorem not_sensorPositions_right_lidarAndTwoThermals :
    (EdgeNodeNetwork.create [lidarAndTwoThermals]).sensorPosition 1 1 = none ∧
      (EdgeNodeNetwork.create [lidarAndTwoThermals]).sensorPosition 1 3 = some 2 ∧
      ¬ ∀ node ∈ (EdgeNodeNetwork.create [lidarAndTwoThermals]).nodes, ∀ t ∈ node.types,
        (EdgeNodeNetwork.create [lidarAndTwoThermals]).sensorPosition node.id t = some (node.numSensors t) := by
  decide

end Soar.Dispatcher
