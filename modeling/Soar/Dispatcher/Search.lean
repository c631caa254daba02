import Mathlib.Algebra.Order.BigOperators.Group.List
import Mathlib.Algebra.Order.Field.Basic
import Soar.Dispatcher.Allocator
import Soar.Library.GreedyScan
import Soar.Library.Loops

/-! What the search of the allocator finds, by the delays and workloads it compares. -/
namespace Soar.Dispatcher
open Soar.Library

/-- A task that the allocator can divide by: positive rate, an execution time that is not negative. -/
structure Task.Valid (t : Task) : Prop where
  fps_pos : 0 < t.fps
  optTime : ∃ x, t.optTime.head? = some x ∧ 0 ≤ x

def Task.time (t : Task) : ℚ := t.optTime.head?.getD 0

/-- `total_time` of the tasks of a node. -/
def totalTime (tasks : List Task) : ℚ := (tasks.map fun t => t.fps * t.time).sum

/-- The workload that the choice between nodes compares. -/
def workload (tasks : List Task) : ℚ := (tasks.map fun t => t.time / t.deadline).sum

/-- The communication delay of a task on the node `id`. -/
def Allocator.delay (a : Allocator) (task : Task) (id : Int) : ℚ :=
  ((a.getSensor task).map (·.frameSize)).getD 0 / (a.bandwidthMap (task.nodeId, id)).getD 0

/-- The check of `allocate`: all tasks of the node meet their deadlines with the communication
delay of the new one. -/
def Allocator.Admits (a : Allocator) (task : Task) (node : EdgeNode) : Prop :=
  ∀ t ∈ node.tasklist ++ [task],
    totalTime (node.tasklist ++ [task]) / t.fps + a.delay task node.id ≤ t.deadline

instance (a : Allocator) (task : Task) (node : EdgeNode) : Decidable (a.Admits task node) := by
  unfold Allocator.Admits
  infer_instance

theorem Task.Valid.head {t : Task} (h : t.Valid) : t.optTime.head? = some t.time := by
  obtain ⟨x, hx, -⟩ := h.optTime
  simp [Task.time, hx]

theorem Task.Valid.time_nonneg {t : Task} (h : t.Valid) : 0 ≤ t.time := by
  obtain ⟨x, hx, hx0⟩ := h.optTime
  simpa [Task.time, hx] using hx0

theorem totalTime_nonneg {tasks : List Task} (h : ∀ t ∈ tasks, t.Valid) : 0 ≤ totalTime tasks := by
  apply List.sum_nonneg
  intro x hx
  obtain ⟨t, ht, rfl⟩ := List.mem_map.mp hx
  exact mul_nonneg (h t ht).fps_pos.le (h t ht).time_nonneg

theorem totalTime_append (l m : List Task) : totalTime (l ++ m) = totalTime l + totalTime m := by
  simp [totalTime]

private theorem sumTimes_eq {tasks : List Task} (h : ∀ t ∈ tasks, t.Valid) (total : ℚ) :
    sumTimes tasks total = some (total + totalTime tasks) := by
  induction tasks generalizing total with
  | nil => simp [sumTimes, totalTime]
  | cons t tasks ih =>
    have ht := (h t (List.mem_cons_self ..)).head
    unfold sumTimes
    simp only [ht, Option.bind_eq_bind, Option.bind_some, ih fun u hu => h u (List.mem_cons_of_mem _ hu)]
    simp [totalTime, add_assoc]

private theorem fillExecution_eq {tasks : List Task} (h : ∀ t ∈ tasks, t.Valid) (total : ℚ)
    (hids : (tasks.map (·.taskId)).Nodup) (execution : Int → Option ℚ) :
    ∃ filled, fillExecution total tasks execution = some filled ∧
      (∀ t ∈ tasks, filled t.taskId = some (total / t.fps)) ∧
      ∀ i, i ∉ tasks.map (·.taskId) → filled i = execution i := by
  induction tasks generalizing execution with
  | nil => exact ⟨execution, rfl, by simp, by simp⟩
  | cons t tasks ih =>
    rw [List.map_cons, List.nodup_cons] at hids
    have hdivide : divide total t.fps = some (total / t.fps) :=
      if_neg (h t (List.mem_cons_self ..)).fps_pos.ne'
    obtain ⟨filled, hfilled, htasks, hothers⟩ := ih (fun u hu => h u (List.mem_cons_of_mem _ hu)) hids.2
      (Function.update execution t.taskId (some (total / t.fps)))
    refine ⟨filled, ?_, ?_, ?_⟩
    · unfold fillExecution
      simp only [hdivide, Option.bind_eq_bind, Option.bind_some, hfilled]
    · rintro u hu
      rcases List.mem_cons.mp hu with rfl | hu
      · rw [hothers _ hids.1, Function.update_self]
      · exact htasks u hu
    · intro i hi
      rw [List.map_cons, List.mem_cons, not_or] at hi
      rw [hothers i hi.2, Function.update_of_ne hi.1]

private theorem getExecTime_eq {node : EdgeNode} {task : Task} (h : ∀ t ∈ node.tasklist ++ [task], t.Valid)
    (hids : ((node.tasklist ++ [task]).map (·.taskId)).Nodup) :
    ∃ execTime, getExecTime node task = some execTime ∧ ∀ t ∈ node.tasklist ++ [task],
      execTime t.taskId = some (totalTime (node.tasklist ++ [task]) / t.fps) := by
  obtain ⟨filled, hfilled, htasks, -⟩ :=
    fillExecution_eq h (totalTime (node.tasklist ++ [task])) hids fun _ => none
  refine ⟨filled, ?_, htasks⟩
  unfold getExecTime
  simp only [sumTimes_eq h, zero_add, Option.bind_eq_bind, Option.bind_some, hfilled]

private theorem countAllocated_eq {tasks : List Task} {execTime : Int → Option ℚ} {time : Task → ℚ}
    (h : ∀ t ∈ tasks, execTime t.taskId = some (time t)) (trans : ℚ) (node : Int) (num : Nat) (temp : Option Int) :
    ∃ num' temp', countAllocated execTime trans node tasks num temp = some (num', temp') ∧
      num' ≤ num + tasks.length ∧
      (num' = num + tasks.length ↔ ∀ t ∈ tasks, time t + trans ≤ t.deadline) ∧
      (num' = num + tasks.length → temp' = if tasks = [] then temp else some node) := by
  induction tasks generalizing num temp with
  | nil => exact ⟨num, temp, rfl, le_rfl, by simp, by simp⟩
  | cons t tasks ih =>
    have ht := h t (List.mem_cons_self ..)
    by_cases hmeets : time t + trans ≤ t.deadline
    · obtain ⟨num', temp', hcount, hle, hiff, htemp⟩ :=
        ih (fun u hu => h u (List.mem_cons_of_mem _ hu)) (num + 1) (some node)
      have hlength : num + (t :: tasks).length = num + 1 + tasks.length := by
        rw [List.length_cons]
        omega
      refine ⟨num', temp', ?_, hlength ▸ hle, ?_, ?_⟩
      · unfold countAllocated
        simp only [ht, Option.bind_eq_bind, Option.bind_some, if_pos hmeets, hcount]
      · rw [hlength, hiff, List.forall_mem_cons]
        exact ⟨fun hall => ⟨hmeets, hall⟩, fun hall => hall.2⟩
      · intro heq
        rw [htemp (hlength ▸ heq)]
        simp
    · refine ⟨num, temp, ?_, by omega, ?_, ?_⟩
      · unfold countAllocated
        simp only [ht, Option.bind_eq_bind, Option.bind_some, if_neg hmeets, Option.pure_def]
      · rw [List.length_cons, List.forall_mem_cons]
        constructor
        · intro heq
          omega
        · intro hall
          exact absurd hall.1 hmeets
      · intro heq
        rw [List.length_cons] at heq
        omega

private theorem getWorkload_eq {tasks : List Task} {w : ℚ} (h : getWorkload tasks = some w) : w = workload tasks := by
  induction tasks generalizing w with
  | nil =>
    cases h
    rfl
  | cons t tasks ih =>
    unfold getWorkload at h
    simp only [Option.bind_eq_bind, Option.bind_eq_some_iff, Option.pure_def, Option.some.injEq] at h
    obtain ⟨time, htime, load, hload, rest, hrest, rfl⟩ := h
    unfold divide at hload
    split_ifs at hload
    cases hload
    simp [workload, Task.time, htime, ih hrest]

/-- A state in which the tasks `pending` can be placed one after the other. -/
structure Allocator.Ready (a : Allocator) (pending : List Task) : Prop where
  bandwidth_pos : ∀ m ∈ a.network.nodes, ∀ n ∈ a.network.nodes, ∃ b, a.bandwidthMap (m.id, n.id) = some b ∧ 0 < b
  placed : ∀ n ∈ a.network.nodes, ∀ t ∈ n.tasklist, t.Valid
  waiting : ∀ t ∈ pending, t.Valid ∧ (a.getSensor t).isSome ∧ t ∈ a.candidates
  ids : ∀ n ∈ a.network.nodes, ((n.tasklist ++ pending).map (·.taskId)).Nodup

section Search

variable {a : Allocator} {task : Task} {rest : List Task}

theorem Allocator.Ready.valid (h : a.Ready (task :: rest)) {node : EdgeNode} (hn : node ∈ a.network.nodes) :
    ∀ t ∈ node.tasklist ++ [task], t.Valid := by
  intro t ht
  rcases List.mem_append.mp ht with hold | hnew
  · exact h.placed node hn t hold
  · rw [List.mem_singleton.mp hnew]
    exact (h.waiting task (List.mem_cons_self ..)).1

theorem Allocator.Ready.nodup (h : a.Ready (task :: rest)) {node : EdgeNode} (hn : node ∈ a.network.nodes) :
    ((node.tasklist ++ [task]).map (·.taskId)).Nodup := by
  refine (h.ids node hn).sublist (List.Sublist.map _ ?_)
  exact List.Sublist.append (List.Sublist.refl _) (List.cons_sublist_cons.mpr (List.nil_sublist _))

/-- The delays of a task whose sensor exists, over bandwidths that can be divided by. -/
theorem Allocator.getTransDelay_eq (hsensor : (a.getSensor task).isSome)
    (hband : ∀ m ∈ a.network.nodes, ∀ n ∈ a.network.nodes, ∃ b, a.bandwidthMap (m.id, n.id) = some b ∧ b ≠ 0) :
    a.getTransDelay task = some (a.network.nodes.map fun n => (n.id, a.delay task n.id)) := by
  obtain ⟨sensor, hsensor⟩ := Option.isSome_iff_exists.mp hsensor
  have hsource : ∃ m ∈ a.network.nodes, m.id = task.nodeId := by
    unfold Allocator.getSensor at hsensor
    obtain ⟨m, hm, -⟩ := Option.bind_eq_some_iff.mp hsensor
    exact ⟨m, List.mem_of_find?_eq_some hm, by simpa using List.find?_some hm⟩
  obtain ⟨m, hm, hid⟩ := hsource
  have hdelay : ∀ n ∈ a.network.nodes, (do
      let commTime ← a.getCommTime task.nodeId n.id sensor
      return (n.id, commTime) : Option (Int × ℚ)) = some (n.id, a.delay task n.id) := by
    intro n hn
    obtain ⟨b, hb, hne⟩ := hband m hm n hn
    rw [hid] at hb
    unfold Allocator.getCommTime Allocator.delay divide
    simp only [hb, hsensor, Option.bind_eq_bind, Option.bind_some, if_neg hne, Option.pure_def, Option.map_some,
      Option.getD_some]
  unfold Allocator.getTransDelay
  simp only [hsensor, Option.bind_eq_bind, Option.bind_some]
  exact mapM_eq_map hdelay

private theorem Allocator.Ready.getTransDelay (h : a.Ready (task :: rest)) :
    a.getTransDelay task = some (a.network.nodes.map fun n => (n.id, a.delay task n.id)) := by
  apply a.getTransDelay_eq (h.waiting task (List.mem_cons_self ..)).2.1
  intro m hm n hn
  obtain ⟨b, hb, hpos⟩ := h.bandwidth_pos m hm n hn
  exact ⟨b, hb, hpos.ne'⟩

theorem lookup_map {l : List EdgeNode} (f : EdgeNode → ℚ) {node : EdgeNode} (hn : node ∈ l)
    (hids : (l.map (·.id)).Nodup) : (l.map fun n => (n.id, f n)).lookup node.id = some (f node) := by
  induction l with
  | nil => simp at hn
  | cons m l ih =>
    rw [List.map_cons, List.nodup_cons] at hids
    rw [List.map_cons, List.lookup_cons]
    rcases List.mem_cons.mp hn with rfl | hn
    · simp
    · have hne : node.id ≠ m.id := fun heq => hids.1 (heq ▸ List.mem_map_of_mem hn)
      rw [beq_eq_false_iff_ne.mpr hne]
      exact ih hn hids.2

private theorem Allocator.Ready.search_cons (h : a.Ready (task :: rest)) {node : EdgeNode}
    (hn : node ∈ a.network.nodes) (order : List Int) (s : Search) :
    ∃ temp, (a.Admits task node → temp = some node.id) ∧
      a.search (a.network.nodes.map fun n => (n.id, a.delay task n.id)) task (node.id :: order) s =
        if task.deadline < a.delay task node.id then some s
        else if a.Admits task node then
          (getWorkload (node.tasklist ++ [task])).bind fun w =>
            a.search (a.network.nodes.map fun n => (n.id, a.delay task n.id)) task order
              ({ s with tempNode := temp }.keepLowest w)
        else a.search (a.network.nodes.map fun n => (n.id, a.delay task n.id)) task order
          { s with tempNode := temp } := by
  obtain ⟨execTime, hexec, htimes⟩ := getExecTime_eq (h.valid hn) (h.nodup hn)
  obtain ⟨num, temp, hcount, -, hiff, htemp⟩ :=
    countAllocated_eq htimes (a.delay task node.id) node.id 0 s.tempNode
  rw [zero_add] at hiff htemp
  have hlookup := lookup_map (fun n => a.delay task n.id) hn a.network.nodup
  refine ⟨temp, fun hadmits => ?_, ?_⟩
  · rw [htemp (hiff.mpr hadmits), if_neg (by simp)]
  · rw [Allocator.search]
    simp only [EdgeNodeNetwork.get_id hn, hlookup, hexec, hcount, Option.bind_eq_bind, Option.bind_some,
      Option.pure_def]
    by_cases hadmits : a.Admits task node
    · rw [if_pos hadmits, if_pos (hiff.mpr hadmits)]
    · rw [if_neg hadmits, if_neg fun heq => hadmits (hiff.mp heq)]

private theorem Allocator.Ready.search_eq (h : a.Ready (task :: rest)) {nodes : List EdgeNode}
    (hnodes : ∀ n ∈ nodes, n ∈ a.network.nodes) {best : Option EdgeNode} {s s' : Search}
    (hnode : s.currentNode = best.map (·.id))
    (hload : s.currentWorkload = best.elim ⊤ fun n => (workload (n.tasklist ++ [task]) : WithTop ℚ))
    (hs : a.search (a.network.nodes.map fun n => (n.id, a.delay task n.id)) task (nodes.map (·.id)) s = some s') :
    s'.currentNode = (scan (fun n => task.deadline < a.delay task n.id) (a.Admits task)
      (fun n => workload (n.tasklist ++ [task])) nodes best).map (·.id) := by
  induction nodes generalizing best s with
  | nil =>
    cases hs
    exact hnode
  | cons n nodes ih =>
    have hn := hnodes n (List.mem_cons_self ..)
    have hrest := fun m hm => hnodes m (List.mem_cons_of_mem _ hm)
    obtain ⟨temp, htemp, hstep⟩ := h.search_cons hn (nodes.map (·.id)) s
    rw [List.map_cons, hstep] at hs
    unfold scan
    split_ifs at hs ⊢ with hstop hadmits
    · cases hs
      exact hnode
    · obtain ⟨w, hw, hs⟩ := Option.bind_eq_some_iff.mp hs
      have hw := getWorkload_eq hw
      subst hw
      refine ih hrest ?_ ?_ hs
      · cases best with
        | none => simp [Search.keepLowest, hload, htemp hadmits, List.argAux]
        | some b =>
          simp only [Search.keepLowest, hload, Option.elim_some, WithTop.coe_lt_coe, List.argAux]
          split_ifs
          · simp [htemp hadmits]
          · simpa using hnode
      · cases best with
        | none => simp [Search.keepLowest, hload, List.argAux]
        | some b =>
          simp only [Search.keepLowest, hload, Option.elim_some, WithTop.coe_lt_coe, List.argAux]
          split_ifs
          · rfl
          · simp
    · refine ih hrest ?_ ?_ hs
      · exact hnode
      · exact hload

private theorem map_id_insertionSort (delay : EdgeNode → ℚ) (nodes : List EdgeNode) :
    ((nodes.map fun n => (n.id, delay n)).insertionSort (·.2 ≤ ·.2)).map (·.1) =
      (nodes.insertionSort fun m n => delay m ≤ delay n).map (·.id) := by
  rw [← List.map_insertionSort (fun m n => delay m ≤ delay n) (fun p q : Int × ℚ => p.2 ≤ q.2)
    (fun n => (n.id, delay n)) nodes fun _ _ _ _ => Iff.rfl, List.map_map]
  rfl

private theorem Allocator.Ready.findNode (h : a.Ready (task :: rest)) :
    a.findNode task =
      (a.search (a.network.nodes.map fun n => (n.id, a.delay task n.id)) task
        ((a.network.nodes.insertionSort fun m n => a.delay task m.id ≤ a.delay task n.id).map (·.id)) {}).map
        (·.currentNode) := by
  unfold Allocator.findNode
  simp only [h.getTransDelay, Option.bind_eq_bind, Option.bind_some, map_id_insertionSort]
  cases a.search _ _ _ _ <;> rfl

/-- The node that the allocator finds, if its search does not raise. -/
theorem Allocator.Ready.findNode_eq (h : a.Ready (task :: rest)) {found : Option Int}
    (hfound : a.findNode task = some found) :
    found = (scan (fun n => task.deadline < a.delay task n.id) (a.Admits task)
      (fun n => workload (n.tasklist ++ [task]))
      (a.network.nodes.insertionSort fun m n => a.delay task m.id ≤ a.delay task n.id) none).map (·.id) := by
  rw [h.findNode] at hfound
  obtain ⟨s, hs, rfl⟩ := Option.map_eq_some_iff.mp hfound
  exact h.search_eq (fun n hn => (List.mem_insertionSort _).mp hn) rfl rfl hs

/-- A node that the allocator finds admits the task. -/
theorem Allocator.Ready.admits (h : a.Ready (task :: rest)) {i : Int} (hfound : a.findNode task = some (some i)) :
    ∃ n ∈ a.network.nodes, n.id = i ∧ a.Admits task n := by
  obtain ⟨n, hscan, hid⟩ := Option.map_eq_some_iff.mp (h.findNode_eq hfound).symm
  rcases scan_keeps hscan with hnone | ⟨hmem, hadmits, -⟩
  · exact absurd hnone (by simp)
  · exact ⟨n, (List.mem_insertionSort _).mp hmem, hid, hadmits⟩

end Search

end Soar.Dispatcher
