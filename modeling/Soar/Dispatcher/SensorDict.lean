import Soar.Dispatcher.Dictionary

/-! How an edge node numbers its sensors and keeps them by type and id. -/
namespace Soar.Dispatcher

/-- `_sensordict`: the sensors of a node by type and id. -/
abbrev SensorDict := List (Int × List (Int × Sensor))

/-- `_sensordict[sensor_type][sensor_id] = sensor`, with an inner dictionary of its own for a new type. -/
def SensorDict.set (dict : SensorDict) (sensorType : Int) (sensor : Sensor) : SensorDict :=
  updateKey [] (updateKey sensor (fun _ => sensor) sensor.sensorId) sensorType dict

/-- The copy of a template with the position and the id. -/
def Sensor.place (sensor : Sensor) (id sensorType : Int) (count : Nat) : Sensor :=
  { sensor with position := id, sensorId := id * 10000 + sensorType * 100 + count + 1 }

/-- `_generate_sensor_dict`, from its variables `last_type` and `count`; a type without a template raises. -/
def generateSensorDict (id : Int) (template : Int → Option Sensor) :
    List Int → Option Int → Nat → SensorDict → Option SensorDict
  | [], _, _, dict => some dict
  | sensorType :: sensors, lastType, count, dict => do
    let sensor ← template sensorType
    let count := if some sensorType = lastType then count else 0
    generateSensorDict id template sensors (some sensorType) (count + 1)
      (dict.set sensorType (sensor.place id sensorType count))

/-- `EdgeNode.__init__`, with an empty task list. -/
def EdgeNode.create (id : Int) (sensors : List Int) (template : Int → Option Sensor) : Option EdgeNode := do
  return { id := id, sensordict := ← generateSensorDict id template sensors none 0 [] }

namespace SensorDict

/-- The ids under which sensors are kept, of all types. -/
def sensorIds (dict : SensorDict) : List Int := dict.flatMap fun sensors => sensors.2.map Prod.fst

def get (dict : SensorDict) (sensorType sensorId : Int) : Option Sensor :=
  (dict.lookup sensorType).bind (·.lookup sensorId)

/-- Only the sensor of this type and id is set. -/
theorem get_set (dict : SensorDict) (sensorType : Int) (sensor : Sensor) (t i : Int) :
    (dict.set sensorType sensor).get t i =
      if t = sensorType ∧ i = sensor.sensorId then some sensor else dict.get t i := by
  unfold get set
  rw [lookup_updateKey]
  by_cases ht : t = sensorType
  · subst ht
    rw [if_pos rfl, Option.bind_some, lookup_updateKey]
    by_cases hi : i = sensor.sensorId
    · rw [if_pos hi, if_pos ⟨rfl, hi⟩]
    · rw [if_neg hi, if_neg fun h => hi h.2]
      cases dict.lookup t <;> rfl
  · rw [if_neg ht, if_neg fun h => ht h.1]

theorem mem_sensorIds_set {dict : SensorDict} {sensorType : Int} {sensor : Sensor} {i : Int}
    (h : i ∈ (dict.set sensorType sensor).sensorIds) : i = sensor.sensorId ∨ i ∈ dict.sensorIds := by
  unfold sensorIds set at *
  induction dict with
  | nil => exact .inl (by simpa [updateKey] using h)
  | cons sensors dict ih =>
    obtain ⟨t, sensors⟩ := sensors
    unfold updateKey at h
    rw [List.flatMap_cons, List.mem_append]
    split_ifs at h
    · rw [List.flatMap_cons, List.mem_append, keys_updateKey] at h
      rcases h with h | h
      · split_ifs at h
        · exact .inr (.inl h)
        · rcases List.mem_append.mp h with h | h
          · exact .inr (.inl h)
          · exact .inl (List.mem_singleton.mp h)
      · exact .inr (.inr h)
    · rw [List.flatMap_cons, List.mem_append] at h
      rcases h with h | h
      · exact .inr (.inl h)
      · exact (ih h).imp_right .inr

/-- A new id is one entry more. -/
theorem sensorIds_set_perm {dict : SensorDict} (sensorType : Int) {sensor : Sensor}
    (h : sensor.sensorId ∉ dict.sensorIds) :
    (dict.set sensorType sensor).sensorIds.Perm (sensor.sensorId :: dict.sensorIds) := by
  unfold sensorIds set at *
  induction dict with
  | nil => exact .refl _
  | cons sensors dict ih =>
    obtain ⟨t, sensors⟩ := sensors
    rw [List.flatMap_cons, List.mem_append, not_or] at h
    unfold updateKey
    split_ifs
    · rw [List.flatMap_cons, List.flatMap_cons, keys_updateKey, if_neg h.1, List.append_assoc, List.singleton_append]
      exact List.perm_middle
    · rw [List.flatMap_cons, List.flatMap_cons]
      exact ((ih h.2).append_left _).trans List.perm_middle

end SensorDict

/-- The types and ids that the loop goes through. -/
def assigned (id : Int) : List Int → Option Int → Nat → List (Int × Int)
  | [], _, _ => []
  | sensorType :: sensors, lastType, count =>
    let count := if some sensorType = lastType then count else 0
    (sensorType, id * 10000 + sensorType * 100 + count + 1) :: assigned id sensors (some sensorType) (count + 1)

section Loop

variable {id : Int} {template : Int → Option Sensor} {sensors : List Int} {lastType : Option Int} {count : Nat}
  {dict dict' : SensorDict}

theorem length_assigned (id : Int) (sensors : List Int) (lastType : Option Int) (count : Nat) :
    (assigned id sensors lastType count).length = sensors.length := by
  induction sensors generalizing lastType count with
  | nil => rfl
  | cons sensorType sensors ih => exact congrArg (· + 1) (ih _ _)

theorem generateSensorDict_isSome (h : ∀ t ∈ sensors, (template t).isSome) :
    (generateSensorDict id template sensors lastType count dict).isSome := by
  induction sensors generalizing lastType count dict with
  | nil => rfl
  | cons sensorType sensors ih =>
    obtain ⟨sensor, hsensor⟩ := Option.isSome_iff_exists.mp (h sensorType (List.mem_cons_self ..))
    unfold generateSensorDict
    rw [hsensor]
    exact ih fun t ht => h t (List.mem_cons_of_mem _ ht)

theorem isSome_of_generateSensorDict (h : generateSensorDict id template sensors lastType count dict = some dict') :
    ∀ t ∈ sensors, (template t).isSome := by
  induction sensors generalizing lastType count dict with
  | nil => exact fun _ hnone => absurd hnone List.not_mem_nil
  | cons sensorType sensors ih =>
    unfold generateSensorDict at h
    obtain ⟨sensor, hsensor, h⟩ := Option.bind_eq_some_iff.mp h
    exact List.forall_mem_cons.mpr ⟨Option.isSome_iff_exists.mpr ⟨sensor, hsensor⟩, ih h⟩

/-- The ids of the dictionary are assigned ones, or were there before. -/
theorem generateSensorDict_mem (h : generateSensorDict id template sensors lastType count dict = some dict') {i : Int}
    (hi : i ∈ dict'.sensorIds) : i ∈ (assigned id sensors lastType count).map Prod.snd ∨ i ∈ dict.sensorIds := by
  induction sensors generalizing lastType count dict with
  | nil =>
    obtain rfl := Option.some.inj h
    exact .inr hi
  | cons sensorType sensors ih =>
    unfold generateSensorDict at h
    obtain ⟨sensor, -, h⟩ := Option.bind_eq_some_iff.mp h
    rcases ih h with hmem | hmem
    · exact .inl (List.mem_cons_of_mem _ hmem)
    · rcases SensorDict.mem_sensorIds_set hmem with rfl | hmem
      · exact .inl (List.mem_cons_self ..)
      · exact .inr hmem

/-- Ids that are all different are all kept. -/
theorem generateSensorDict_perm (h : generateSensorDict id template sensors lastType count dict = some dict')
    (hnodup : ((assigned id sensors lastType count).map Prod.snd ++ dict.sensorIds).Nodup) :
    dict'.sensorIds.Perm ((assigned id sensors lastType count).map Prod.snd ++ dict.sensorIds) := by
  induction sensors generalizing lastType count dict with
  | nil =>
    obtain rfl := Option.some.inj h
    exact .refl _
  | cons sensorType sensors ih =>
    unfold generateSensorDict at h
    obtain ⟨sensor, -, h⟩ := Option.bind_eq_some_iff.mp h
    unfold assigned at hnodup ⊢
    have hnew := (List.nodup_cons.mp hnodup).1
    refine (ih h ((List.Perm.nodup_iff ?perm).mpr hnodup)).trans ?perm
    have hset := SensorDict.sensorIds_set_perm sensorType (show (sensor.place id sensorType _).sensorId ∉ _ from
      fun hmem => hnew (List.mem_append_right _ hmem))
    exact (hset.append_left _).trans List.perm_middle

/-- What is kept is what the loop goes through, with its type and id. -/
theorem generateSensorDict_get (h : generateSensorDict id template sensors lastType count dict = some dict')
    (t i : Int) : (dict'.get t i).isSome ↔ (t, i) ∈ assigned id sensors lastType count ∨ (dict.get t i).isSome := by
  induction sensors generalizing lastType count dict with
  | nil =>
    obtain rfl := Option.some.inj h
    exact (or_iff_right List.not_mem_nil).symm
  | cons sensorType sensors ih =>
    unfold generateSensorDict at h
    obtain ⟨sensor, -, h⟩ := Option.bind_eq_some_iff.mp h
    unfold assigned
    dsimp only at h ⊢
    generalize (if some sensorType = lastType then count else 0) = count at h ⊢
    rw [ih h, SensorDict.get_set, List.mem_cons, Prod.mk.injEq, or_assoc, or_left_comm]
    by_cases hset : t = sensorType ∧ i = (sensor.place id sensorType count).sensorId
    · rw [if_pos hset]
      exact or_congr_right (iff_of_true rfl (.inl hset))
    · rw [if_neg hset]
      exact or_congr_right (or_iff_right hset).symm

end Loop

end Soar.Dispatcher
