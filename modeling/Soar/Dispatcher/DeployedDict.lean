import Soar.Computing.SharedMemory
import Soar.Dispatcher.Dictionary

/-! What the dictionary that `deploy_tasks` builds holds for a node. -/
namespace Soar.Dispatcher

/-- The entry of a node with these tasks: the task ids by sensor id. -/
def sensorTasks (tasks : List Task) : List (Int × List Int) :=
  tasks.foldl (fun dict task => updateKey [] (· ++ [task.taskId]) task.sensorId dict) []

theorem sensorTasks_concat (tasks : List Task) (task : Task) :
    sensorTasks (tasks ++ [task]) = updateKey [] (· ++ [task.taskId]) task.sensorId (sensorTasks tasks) := by
  unfold sensorTasks
  rw [List.foldl_concat]

theorem nodup_sensorTasks (tasks : List Task) : ((sensorTasks tasks).map Prod.fst).Nodup := by
  induction tasks using List.reverseRecOn with
  | nil => exact List.nodup_nil
  | append_singleton tasks task ih =>
    rw [sensorTasks_concat]
    exact nodup_keys_updateKey ih

theorem mem_keys_sensorTasks {tasks : List Task} {sensorId : Int} :
    sensorId ∈ (sensorTasks tasks).map Prod.fst ↔ ∃ task ∈ tasks, task.sensorId = sensorId := by
  induction tasks using List.reverseRecOn with
  | nil => simp [sensorTasks]
  | append_singleton tasks task ih =>
    rw [sensorTasks_concat, keys_updateKey]
    simp only [List.mem_append, List.mem_singleton, or_and_right, exists_or, ← ih]
    split_ifs with hmem
    · refine ⟨.inl, fun h => h.elim id ?_⟩
      rintro ⟨_, rfl, rfl⟩
      exact hmem
    · simp [eq_comm]

/-- The entries of a node have the tasks of its list. -/
theorem mem_sensorTasks {tasks : List Task} {taskId : Int} :
    (∃ entry ∈ sensorTasks tasks, taskId ∈ entry.2) ↔ ∃ task ∈ tasks, task.taskId = taskId := by
  induction tasks using List.reverseRecOn with
  | nil => simp [sensorTasks]
  | append_singleton tasks task ih =>
    rw [sensorTasks_concat, mem_append_updateKey, ih]
    simp [or_and_right, exists_or, eq_comm]

section Names

/-- The id that a text names. -/
private def readId : List Char → Int
  | '-' :: digits => -(Nat.ofDigitChars 10 digits 0 : Int)
  | digits => (Nat.ofDigitChars 10 digits 0 : Int)

private theorem readId_digits {digits : List Char} (h : ∀ c ∈ digits, c.isDigit) :
    readId digits = (Nat.ofDigitChars 10 digits 0 : Int) := by
  unfold readId
  split
  · exact absurd (h '-' (List.mem_cons_self ..)) (by decide)
  · rfl

private theorem readId_nodename (id : Int) : readId ((nodename id).toList.drop 8) = id := by
  have htestbed : ∀ s : String, ("testbed-" ++ s).toList.drop 8 = s.toList := fun s => by
    rw [String.toList_append]
    rfl
  unfold nodename
  rw [String.append_assoc, htestbed, String.toList_append]
  cases id with
  | ofNat n =>
    have hdigits : ∀ c ∈ Nat.toDigits 10 n, c.isDigit := fun _ hc =>
      Nat.isDigit_of_mem_toDigits (by decide) (by decide) hc
    have hrepr : (toString (Int.ofNat n)).toList = Nat.toDigits 10 n := Nat.toList_repr
    rw [hrepr]
    split_ifs
    · rw [readId_digits (List.forall_mem_append.mpr ⟨by simp, hdigits⟩)]
      exact congrArg Nat.cast Nat.ofDigitChars_ten_toDigits
    · rw [readId_digits (List.forall_mem_append.mpr ⟨by simp, hdigits⟩)]
      exact congrArg Nat.cast Nat.ofDigitChars_ten_toDigits
  | negSucc n =>
    have hrepr : (toString (Int.negSucc n)).toList = '-' :: Nat.toDigits 10 (n + 1) := by
      rw [show toString (Int.negSucc n) = "-" ++ Nat.repr (n + 1) from rfl, String.toList_append, Nat.toList_repr]
      rfl
    rw [hrepr, if_neg (by omega)]
    show -(Nat.ofDigitChars 10 (Nat.toDigits 10 (n + 1)) 0 : Int) = _
    rw [Nat.ofDigitChars_ten_toDigits]
    rfl

theorem nodename_injective : Function.Injective nodename := fun i j h => by
  rw [← readId_nodename i, h, readId_nodename]

end Names

section Lookup

/-- The tasks of one node, entered under its name. -/
private def enterTasks (name : String) (dict : Deployment) (tasks : List Task) : Deployment :=
  tasks.foldl (fun dict task =>
    updateKey [] (updateKey [] (· ++ [task.taskId]) task.sensorId) name dict) dict

private theorem lookup_enterTasks (name : String) (dict : Deployment) (tasks : List Task) (name' : String)
    (hdict : dict.lookup name = none) : (enterTasks name dict tasks).lookup name' =
      if name' = name ∧ tasks ≠ [] then some (sensorTasks tasks) else dict.lookup name' := by
  induction tasks using List.reverseRecOn generalizing name' with
  | nil => simp [enterTasks]
  | append_singleton tasks task ih =>
    have hown : ((enterTasks name dict tasks).lookup name).getD [] = sensorTasks tasks := by
      rw [ih]
      by_cases htasks : tasks = []
      · rw [if_neg fun h => h.2 htasks, hdict, htasks]
        rfl
      · rw [if_pos ⟨rfl, htasks⟩, Option.getD_some]
    have hconcat : enterTasks name dict (tasks ++ [task]) =
        updateKey [] (updateKey [] (· ++ [task.taskId]) task.sensorId) name (enterTasks name dict tasks) :=
      List.foldl_concat ..
    rw [hconcat, lookup_updateKey, hown, ← sensorTasks_concat]
    by_cases hname : name' = name
    · rw [if_pos hname, if_pos ⟨hname, by simp⟩]
    · rw [if_neg hname, ih, if_neg fun h => hname h.1, if_neg fun h => hname h.1]

private theorem lookup_foldl_enterTasks (nodes : List EdgeNode) (dict : Deployment) (hnodup : (nodes.map (·.id)).Nodup)
    (hdict : ∀ node ∈ nodes, dict.lookup (nodename node.id) = none) (name : String) :
    (nodes.foldl (fun dict node => enterTasks (nodename node.id) dict node.tasklist) dict).lookup name =
      match nodes.find? (nodename ·.id = name) with
      | some node => if node.tasklist = [] then none else some (sensorTasks node.tasklist)
      | none => dict.lookup name := by
  induction nodes generalizing dict with
  | nil => rfl
  | cons node nodes ih =>
    obtain ⟨hnew, hnodup⟩ := List.nodup_cons.mp hnodup
    have hother : ∀ node' ∈ nodes, nodename node'.id ≠ nodename node.id := fun node' hnode' heq =>
      hnew (List.mem_map.mpr ⟨node', hnode', nodename_injective heq⟩)
    have hentered := lookup_enterTasks (nodename node.id) dict node.tasklist
    rw [List.foldl_cons, ih _ hnodup]
    · rw [List.find?_cons]
      by_cases hname : nodename node.id = name
      · have hnone : nodes.find? (nodename ·.id = name) = none :=
          List.find?_eq_none.mpr fun node' hnode' heq => hother node' hnode' (by simpa [hname] using heq)
        rw [hnone, decide_eq_true hname]
        dsimp only
        rw [hentered name (hdict node (List.mem_cons_self ..)), ← hname]
        by_cases htasks : node.tasklist = []
        · simp [htasks, hdict node (List.mem_cons_self ..)]
        · simp [htasks]
      · rw [decide_eq_false hname]
        dsimp only
        cases nodes.find? (nodename ·.id = name) with
        | some node' => rfl
        | none =>
          dsimp only
          rw [hentered name (hdict node (List.mem_cons_self ..)), if_neg fun h => hname h.1.symm]
    · intro node' hnode'
      rw [hentered _ (hdict node (List.mem_cons_self ..)), if_neg fun h => hother node' hnode' h.1]
      exact hdict node' (List.mem_cons_of_mem _ hnode')

/-- The dictionary has the entry of each node with tasks, and no other. -/
theorem Allocator.lookup_deployedDict (a : Allocator) (name : String) : a.deployedDict.lookup name =
    match a.network.nodes.find? (nodename ·.id = name) with
    | some node => if node.tasklist = [] then none else some (sensorTasks node.tasklist)
    | none => none :=
  lookup_foldl_enterTasks a.network.nodes [] a.network.nodup (fun _ _ => rfl) name

/-- A node with tasks has its entry in the dictionary, one without tasks has none. -/
theorem Allocator.lookup_deployedDict_node (a : Allocator) {node : EdgeNode} (hnode : node ∈ a.network.nodes) :
    a.deployedDict.lookup (nodename node.id) =
      if node.tasklist = [] then none else some (sensorTasks node.tasklist) := by
  have hget := a.network.get_id hnode
  unfold EdgeNodeNetwork.get at hget
  rw [a.lookup_deployedDict]
  simp only [nodename_injective.eq_iff, hget]

end Lookup

end Soar.Dispatcher
