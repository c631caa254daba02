import Mathlib.Data.List.Perm.Lattice
import Soar.Dispatcher.Search

/-! What the placement of one task changes, and the order in which tasks are placed. -/
namespace Soar.Dispatcher

/-- The inputs the allocator is meant for. -/
structure WellPosed (tasks : List Task) (network : EdgeNodeNetwork) (bandwidthMap : Int × Int → Option ℚ) : Prop where
  empty : ∀ n ∈ network.nodes, n.tasklist = []
  bandwidth_pos : ∀ m ∈ network.nodes, ∀ n ∈ network.nodes, ∃ b, bandwidthMap (m.id, n.id) = some b ∧ 0 < b
  priorities : (tasks.map (·.priority)).Nodup
  taskIds : (tasks.map (·.taskId)).Nodup
  valid : ∀ t ∈ tasks, t.Valid
  sensors : ∀ t ∈ tasks, ((Allocator.create tasks network bandwidthMap).getSensor t).isSome

/-- Lower values are more urgent. -/
def byPriority (tasks : List Task) : List Task := tasks.insertionSort fun t u => t.priority ≤ u.priority

theorem mem_byPriority {tasks : List Task} {t : Task} : t ∈ byPriority tasks ↔ t ∈ tasks :=
  List.mem_insertionSort _

theorem byPriority_perm (tasks : List Task) : (byPriority tasks).Perm tasks := List.perm_insertionSort _ tasks

theorem byPriority_pairwise (tasks : List Task) : (byPriority tasks).Pairwise fun t u => t.priority ≤ u.priority :=
  haveI : Std.Total fun t u : Task => t.priority ≤ u.priority := ⟨fun t u => le_total t.priority u.priority⟩
  haveI : IsTrans Task fun t u => t.priority ≤ u.priority := ⟨fun _ _ _ => le_trans⟩
  List.pairwise_insertionSort _ tasks

/-- With distinct priorities there is one order of increasing priority. -/
theorem byPriority_pairwise_lt {tasks : List Task} (h : (tasks.map (·.priority)).Nodup) :
    (byPriority tasks).Pairwise fun t u => t.priority < u.priority := by
  have hnodup : ((byPriority tasks).map (·.priority)).Nodup := ((byPriority_perm tasks).map _).nodup_iff.mpr h
  exact (byPriority_pairwise tasks).imp₂ (fun t u hle hne => lt_of_le_of_ne hle hne) (List.pairwise_map.mp hnodup)

/-- Distinct priorities leave only one order. -/
theorem eq_byPriority {tasks order : List Task} (hperm : order.Perm tasks)
    (hsorted : order.Pairwise fun t u => t.priority < u.priority) : order = byPriority tasks := by
  refine List.Perm.eq_of_pairwise ?_ (hsorted.imp fun {t u} htu => htu.le) (byPriority_pairwise tasks)
    (hperm.trans (byPriority_perm tasks).symm)
  intro t u ht hu htu hut
  have hu' : u ∈ order := hperm.mem_iff.mpr (mem_byPriority.mp hu)
  by_contra hne
  rcases List.mem_iff_getElem.mp ht with ⟨i, hi, rfl⟩
  rcases List.mem_iff_getElem.mp hu' with ⟨j, hj, rfl⟩
  rcases lt_trichotomy i j with hij | rfl | hij
  · exact absurd (List.pairwise_iff_getElem.mp hsorted i j hi hj hij) (not_lt.mpr hut)
  · exact hne rfl
  · exact absurd (List.pairwise_iff_getElem.mp hsorted j i hj hi hij) (not_lt.mpr htu)

/-- What goes into a sorted queue stays sorted, and no entry of its priority was compared that is not equal. -/
theorem put_spec {entry : Int × Task} {queue queue' : List (Int × Task)} (hsorted : queue.Pairwise fun e f => e.1 ≤ f.1)
    (h : put entry queue = some queue') :
    queue'.Perm (entry :: queue) ∧ queue'.Pairwise (fun e f => e.1 ≤ f.1) ∧ ∀ e ∈ queue, e.1 = entry.1 → e = entry := by
  induction queue generalizing queue' with
  | nil =>
    cases h
    exact ⟨List.Perm.refl _, List.pairwise_singleton _ _, by simp⟩
  | cons first queue ih =>
    obtain ⟨hfirst, hrest⟩ := List.pairwise_cons.mp hsorted
    unfold put at h
    split_ifs at h with hlt hgt
    · cases h
      refine ⟨List.Perm.refl _, List.pairwise_cons.mpr ⟨fun e he => ?_, hsorted⟩, fun e he heq => ?_⟩
      · obtain rfl | he := List.mem_cons.mp he
        · exact hlt.le
        · exact hlt.le.trans (hfirst e he)
      · obtain rfl | he := List.mem_cons.mp he
        · exact absurd heq hlt.ne'
        · exact absurd heq (hlt.trans_le (hfirst e he)).ne'
    · obtain ⟨queue'', hput, h⟩ := Option.bind_eq_some_iff.mp h
      cases h
      obtain ⟨hperm, hsorted', hties⟩ := ih hrest hput
      have hle : first.1 ≤ entry.1 := hgt.elim le_of_lt fun heq => by rw [heq]
      refine ⟨(hperm.cons first).trans (List.Perm.swap entry first queue),
        List.pairwise_cons.mpr ⟨fun e he => ?_, hsorted'⟩, fun e he heq => ?_⟩
      · obtain rfl | he := List.mem_cons.mp (hperm.mem_iff.mp he)
        · exact hle
        · exact hfirst e he
      · obtain rfl | he := List.mem_cons.mp he
        · exact hgt.elim (fun hlt => absurd heq hlt.ne) id
        · exact hties e he heq

theorem put_returns {entry : Int × Task} {queue : List (Int × Task)} (hnew : ∀ e ∈ queue, e.1 = entry.1 → e = entry) :
    ∃ queue', put entry queue = some queue' := by
  induction queue with
  | nil => exact ⟨_, rfl⟩
  | cons first queue ih =>
    obtain ⟨queue', hput⟩ := ih fun e he => hnew e (List.mem_cons_of_mem _ he)
    unfold put
    rcases lt_trichotomy entry.1 first.1 with hlt | heq | hgt
    · exact ⟨_, if_pos hlt⟩
    · rw [if_neg heq.not_lt, if_pos (.inr (hnew first (List.mem_cons_self ..) heq.symm)), hput]
      exact ⟨_, rfl⟩
    · rw [if_neg hgt.not_gt, if_pos (.inl hgt), hput]
      exact ⟨_, rfl⟩

/-- The entry of a task in the queue. -/
abbrev Task.entry (task : Task) : Int × Task := (task.priority, task)

/-- The queue has the entries of all tasks in the order of their priorities, which no two different ones share. -/
theorem orderTasks_spec {tasks : List Task} {queue queue' : List (Int × Task)}
    (hsorted : queue.Pairwise fun e f => e.1 ≤ f.1) (h : orderTasks tasks queue = some queue') :
    queue'.Perm (tasks.map Task.entry ++ queue) ∧ queue'.Pairwise (fun e f => e.1 ≤ f.1) ∧
      ∀ e ∈ tasks.map Task.entry, ∀ f ∈ tasks.map Task.entry ++ queue, e.1 = f.1 → e = f := by
  induction tasks generalizing queue with
  | nil =>
    cases h
    exact ⟨List.Perm.refl _, hsorted, by simp⟩
  | cons t tasks ih =>
    obtain ⟨next, hput, h⟩ := Option.bind_eq_some_iff.mp h
    obtain ⟨hperm, hnext, hnew⟩ := put_spec hsorted hput
    obtain ⟨hperm', hsorted', hties⟩ := ih hnext h
    have hmiddle : (tasks.map Task.entry ++ next).Perm ((t :: tasks).map Task.entry ++ queue) :=
      (hperm.append_left _).trans List.perm_middle
    refine ⟨hperm'.trans hmiddle, hsorted', fun e he f hf heq => ?_⟩
    obtain rfl | he := List.mem_cons.mp he
    · rw [List.map_cons, List.cons_append, List.mem_cons, List.mem_append] at hf
      obtain rfl | hf | hf := hf
      · rfl
      · exact (hties f hf t.entry (List.mem_append_right _ (hperm.mem_iff.mpr (List.mem_cons_self ..))) heq.symm).symm
      · exact (hnew f hf heq.symm).symm
    · exact hties e he f (hmiddle.mem_iff.mpr hf) heq

/-- Without ties the queue raises nothing. -/
theorem orderTasks_returns {tasks : List Task} {queue : List (Int × Task)}
    (hsorted : queue.Pairwise fun e f => e.1 ≤ f.1)
    (hties : ∀ e ∈ tasks.map Task.entry, ∀ f ∈ tasks.map Task.entry ++ queue, e.1 = f.1 → e = f) :
    ∃ queue', orderTasks tasks queue = some queue' := by
  induction tasks generalizing queue with
  | nil => exact ⟨queue, rfl⟩
  | cons t tasks ih =>
    obtain ⟨next, hput⟩ := put_returns fun e he heq =>
      (hties t.entry (List.mem_cons_self ..) e (List.mem_append_right _ he) heq.symm).symm
    obtain ⟨hperm, hnext, -⟩ := put_spec hsorted hput
    have hmiddle : (tasks.map Task.entry ++ next).Perm ((t :: tasks).map Task.entry ++ queue) :=
      (hperm.append_left _).trans List.perm_middle
    obtain ⟨queue', horder⟩ := ih hnext fun e he f hf =>
      hties e (List.mem_cons_of_mem _ he) f (hmiddle.mem_iff.mp hf)
    refine ⟨queue', ?_⟩
    unfold orderTasks
    rw [hput]
    exact horder

/-- Taking the tasks out of their entries. -/
theorem perm_of_entries {tasks : List Task} {queue : List (Int × Task)} (h : queue.Perm (tasks.map Task.entry)) :
    (queue.map (·.2)).Perm tasks ∧ ∀ e ∈ queue, e.1 = e.2.priority := by
  constructor
  · have hmap := h.map (·.2)
    rwa [List.map_map, show ((fun e : Int × Task => e.2) ∘ Task.entry) = id from rfl, List.map_id] at hmap
  · intro e he
    obtain ⟨t, -, rfl⟩ := List.mem_map.mp (h.mem_iff.mp he)
    rfl

/-- The queue yields the tasks in the order of their priorities. -/
theorem orderTasks_byPriority {tasks : List Task} (h : (tasks.map (·.priority)).Nodup) :
    ∃ queue, orderTasks tasks [] = some queue ∧ queue.map (·.2) = byPriority tasks := by
  obtain ⟨queue, horder⟩ : ∃ queue, orderTasks tasks [] = some queue := by
    apply orderTasks_returns List.Pairwise.nil
    intro e he f hf heq
    rw [List.append_nil] at hf
    obtain ⟨t, ht, rfl⟩ := List.mem_map.mp he
    obtain ⟨u, hu, rfl⟩ := List.mem_map.mp hf
    rw [List.inj_on_of_nodup_map h ht hu heq]
  obtain ⟨hperm, hsorted, -⟩ := orderTasks_spec List.Pairwise.nil horder
  rw [List.append_nil] at hperm
  obtain ⟨htasks, hentries⟩ := perm_of_entries hperm
  have hnodup : (queue.map (·.1)).Nodup := by
    have hmap := (hperm.map (·.1)).nodup_iff
    rw [List.map_map] at hmap
    exact hmap.mpr h
  refine ⟨queue, horder, eq_byPriority htasks ?_⟩
  refine List.pairwise_map.mpr ((hsorted.imp₂ (fun e f hle hne => lt_of_le_of_ne hle hne)
    (List.pairwise_map.mp hnodup)).imp_of_mem fun {e f} he hf hlt => ?_)
  rwa [← hentries e he, ← hentries f hf]

/-- With distinct priorities the tasks are placed in the order of their priorities. -/
theorem allocate_of_nodup {tasks : List Task} (h : (tasks.map (·.priority)).Nodup) (network : EdgeNodeNetwork)
    (bandwidthMap : Int × Int → Option ℚ) :
    (Allocator.create tasks network bandwidthMap).allocate =
      (Allocator.placeTasks (byPriority tasks) (Allocator.create tasks network bandwidthMap)).map
        Allocator.deployTasks := by
  obtain ⟨queue, horder, hqueue⟩ := orderTasks_byPriority h
  unfold Allocator.allocate
  simp only [Allocator.create, horder, Option.bind_eq_bind, Option.bind_some, hqueue]
  cases Allocator.placeTasks _ _ <;> rfl

theorem allocate_eq {tasks : List Task} {network : EdgeNodeNetwork} {bandwidthMap : Int × Int → Option ℚ}
    (h : WellPosed tasks network bandwidthMap) :
    (Allocator.create tasks network bandwidthMap).allocate =
      (Allocator.placeTasks (byPriority tasks) (Allocator.create tasks network bandwidthMap)).map
        Allocator.deployTasks :=
  allocate_of_nodup h.priorities network bandwidthMap

/-- A well-posed allocation is ready for all its tasks. -/
theorem WellPosed.ready {tasks : List Task} {network : EdgeNodeNetwork} {bandwidthMap : Int × Int → Option ℚ}
    (h : WellPosed tasks network bandwidthMap) :
    (Allocator.create tasks network bandwidthMap).Ready (byPriority tasks) where
  bandwidth_pos := h.bandwidth_pos
  placed := by
    intro n hn t ht
    rw [h.empty n hn] at ht
    exact absurd ht List.not_mem_nil
  waiting := fun t ht => ⟨h.valid t (mem_byPriority.mp ht), h.sensors t (mem_byPriority.mp ht), mem_byPriority.mp ht⟩
  ids := by
    intro n hn
    rw [h.empty n hn, List.nil_append]
    exact ((byPriority_perm tasks).map _).nodup_iff.mpr h.taskIds

section Step

variable {a a' : Allocator} {task : Task} {rest : List Task}

/-- The state after `task` has gone to the node `id`. -/
def Allocator.placed (a : Allocator) (task : Task) (id : Int) : Allocator :=
  { a with network := a.network.insertTask id task, candidates := a.candidates.erase task }

theorem Allocator.Ready.mem (h : a.Ready (task :: rest)) : task ∈ a.candidates :=
  (h.waiting task (List.mem_cons_self ..)).2.2

/-- All that the placement of one task can do. -/
theorem Allocator.Ready.placeTask_cases (h : a.Ready (task :: rest)) (hp : a.placeTask task = some a') :
    a.findNode task = some none ∧ a' = a ∨
      ∃ n ∈ a.network.nodes, a.findNode task = some (some n.id) ∧ a.Admits task n ∧ a' = a.placed task n.id := by
  unfold Allocator.placeTask at hp
  obtain ⟨found, hfound, hp⟩ := Option.bind_eq_some_iff.mp hp
  cases found with
  | none =>
    cases hp
    exact .inl ⟨hfound, rfl⟩
  | some i =>
    obtain ⟨n, hn, rfl, hadmits⟩ := h.admits hfound
    simp only [if_pos h.mem, Option.pure_def, Option.some.injEq] at hp
    exact .inr ⟨n, hn, hfound, hadmits, hp.symm⟩

/-- A task that is a candidate is placed or left if its search ends. -/
theorem Allocator.placeTask_returns {found : Option Int} (hfound : a.findNode task = some found)
    (hcandidate : task ∈ a.candidates) : a.placeTask task = some (found.elim a (a.placed task)) := by
  unfold Allocator.placeTask
  simp only [hfound, Option.bind_eq_bind, Option.bind_some]
  cases found with
  | none => rfl
  | some i => exact if_pos hcandidate

@[simp] theorem Allocator.placed_getSensor (task t : Task) (i : Int) :
    (a.placed task i).getSensor t = a.getSensor t := by
  unfold Allocator.getSensor Allocator.placed
  simp only [EdgeNodeNetwork.get_insertTask, Option.bind_eq_bind]
  cases a.network.get t.nodeId with
  | none => rfl
  | some node =>
    simp only [Option.map_some, Option.bind_some]
    unfold EdgeNode.getSensor
    split_ifs <;> simp

@[simp] theorem Allocator.placed_delay (task : Task) (i : Int) : (a.placed task i).delay = a.delay := by
  funext t id
  unfold Allocator.delay
  rw [Allocator.placed_getSensor]
  rfl

theorem Allocator.Ready.not_mem (h : a.Ready (task :: rest)) {n : EdgeNode} (hn : n ∈ a.network.nodes) :
    task ∉ n.tasklist := by
  intro hmem
  have hnodup := h.ids n hn
  rw [List.map_append, List.nodup_append] at hnodup
  exact hnodup.2.2 _ (List.mem_map_of_mem hmem) _ (List.mem_map_of_mem (List.mem_cons_self ..)) rfl

/-- The nodes after a placement: the one that took the task has it at the end of its list, if it was not there. -/
theorem Allocator.mem_placed {i : Int} {n' : EdgeNode} (hn' : n' ∈ (a.placed task i).network.nodes) :
    ∃ n ∈ a.network.nodes, n'.id = n.id ∧
      n'.tasklist = if n.id = i ∧ task ∉ n.tasklist then n.tasklist ++ [task] else n.tasklist := by
  obtain ⟨n, hn, rfl⟩ := List.mem_map.mp hn'
  refine ⟨n, hn, ?_, ?_⟩
  · split_ifs <;> simp
  · by_cases hi : n.id = i
    · by_cases hmem : task ∈ n.tasklist
      · rw [if_pos hi, if_neg fun h => h.2 hmem, EdgeNode.insertTask, EdgeNode.keepTasklist_tasklist, if_pos hmem,
          EdgeNode.keepTasklist_tasklist]
      · rw [if_pos hi, if_pos ⟨hi, hmem⟩, EdgeNode.insertTask_tasklist hmem]
    · rw [if_neg hi, if_neg fun h => hi h.1]

/-- A task with an id of its own was not there. -/
theorem Allocator.Ready.mem_placed (h : a.Ready (task :: rest)) {i : Int} {n' : EdgeNode}
    (hn' : n' ∈ (a.placed task i).network.nodes) :
    ∃ n ∈ a.network.nodes, n'.id = n.id ∧ n'.tasklist = if n.id = i then n.tasklist ++ [task] else n.tasklist := by
  obtain ⟨n, hn, hid, hlist⟩ := Allocator.mem_placed hn'
  simp only [h.not_mem hn, not_false_eq_true, and_true] at hlist
  exact ⟨n, hn, hid, hlist⟩

private theorem Allocator.Ready.placed_step (h : a.Ready (task :: rest)) (i : Int) : (a.placed task i).Ready rest where
  bandwidth_pos := by
    intro m' hm' n' hn'
    obtain ⟨m, hm, hmid, -⟩ := h.mem_placed hm'
    obtain ⟨n, hn, hnid, -⟩ := h.mem_placed hn'
    rw [hmid, hnid]
    exact h.bandwidth_pos m hm n hn
  placed := by
    intro n' hn' t ht
    obtain ⟨n, hn, -, hlist⟩ := h.mem_placed hn'
    rw [hlist] at ht
    apply h.valid hn t
    split_ifs at ht
    · exact ht
    · exact List.mem_append_left _ ht
  waiting := by
    intro t ht
    obtain ⟨hvalid, hsensor, hcandidate⟩ := h.waiting t (List.mem_cons_of_mem _ ht)
    refine ⟨hvalid, by rwa [Allocator.placed_getSensor], ?_⟩
    obtain ⟨m, hm, -⟩ := Option.bind_eq_some_iff.mp (Option.isSome_iff_exists.mp hsensor).choose_spec
    have hids := h.ids m (List.mem_of_find?_eq_some hm)
    have hne : t ≠ task := by
      rintro rfl
      rw [List.map_append, List.nodup_append, List.map_cons, List.nodup_cons] at hids
      exact hids.2.1.1 (List.mem_map_of_mem ht)
    exact (List.mem_erase_of_ne hne).mpr hcandidate
  ids := by
    intro n' hn'
    obtain ⟨n, hn, -, hlist⟩ := h.mem_placed hn'
    rw [hlist]
    split_ifs
    · rw [List.append_assoc]
      exact h.ids n hn
    · exact (h.ids n hn).sublist ((List.sublist_cons_self task rest).append_left _ |>.map _)

/-- What one placement keeps. -/
theorem Allocator.Ready.step (h : a.Ready (task :: rest)) (hp : a.placeTask task = some a') :
    a'.Ready rest ∧ a'.delay = a.delay := by
  rcases h.placeTask_cases hp with ⟨-, rfl⟩ | ⟨n, -, -, -, rfl⟩
  · refine ⟨⟨h.bandwidth_pos, h.placed, fun t ht => h.waiting t (List.mem_cons_of_mem _ ht), fun n hn => ?_⟩, rfl⟩
    exact (h.ids n hn).sublist ((List.sublist_cons_self task rest).append_left _ |>.map _)
  · exact ⟨h.placed_step n.id, a.placed_delay task n.id⟩

end Step

end Soar.Dispatcher
