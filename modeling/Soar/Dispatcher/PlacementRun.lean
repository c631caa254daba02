import Mathlib.Algebra.Order.Ring.Rat
import Mathlib.Data.List.Perm.Subperm
import Soar.Dispatcher.Placement

/-! A whole run of the placement loop: which nodes the search can name, and when no division or removal raises. -/
namespace Soar.Dispatcher
open Soar.Library

/-- A task whose numbers the allocator can divide by. -/
structure Task.Divisible (t : Task) : Prop where
  fps : t.fps ≠ 0
  optTime : t.optTime ≠ []
  deadline : t.deadline ≠ 0

instance (t : Task) : Decidable t.Divisible :=
  decidable_of_iff (t.fps ≠ 0 ∧ t.optTime ≠ [] ∧ t.deadline ≠ 0)
    ⟨fun ⟨hfps, htime, hdeadline⟩ => ⟨hfps, htime, hdeadline⟩, fun h => ⟨h.fps, h.optTime, h.deadline⟩⟩

theorem Task.Divisible.head {t : Task} (h : t.Divisible) : ∃ time, t.optTime.head? = some time :=
  ⟨t.optTime.head h.optTime, List.head?_eq_some_head h.optTime⟩

theorem Task.Valid.divisible {t : Task} (h : t.Valid) (hdeadline : 0 < t.deadline) : t.Divisible := by
  refine ⟨h.fps_pos.ne', fun hnil => ?_, hdeadline.ne'⟩
  obtain ⟨time, htime, -⟩ := h.optTime
  rw [hnil] at htime
  cases htime

section Names

variable {a : Allocator} {task : Task}

/-- The node that the counting of tasks leaves in `temp_node`. -/
theorem countAllocated_node {execTime : Int → Option ℚ} {trans : ℚ} {node : Int} {tasks : List Task} {num num' : Nat}
    {temp temp' : Option Int} (h : countAllocated execTime trans node tasks num temp = some (num', temp')) :
    temp' = temp ∨ temp' = some node := by
  induction tasks generalizing num temp with
  | nil =>
    cases h
    exact Or.inl rfl
  | cons t tasks ih =>
    obtain ⟨time, -, h⟩ := Option.bind_eq_some_iff.mp h
    dsimp only at h
    split_ifs at h
    · exact Or.inr ((ih h).elim id id)
    · cases h
      exact Or.inl rfl

/-- The search names nodes of the network only. -/
def Search.Names (s : Search) (a : Allocator) : Prop :=
  (∀ i ∈ s.tempNode, ∃ n ∈ a.network.nodes, n.id = i) ∧ ∀ i ∈ s.currentNode, ∃ n ∈ a.network.nodes, n.id = i

theorem Search.Names.keepLowest {s : Search} (h : s.Names a) (w : ℚ) : (s.keepLowest w).Names a := by
  unfold Search.keepLowest
  split_ifs
  · exact ⟨h.1, h.1⟩
  · exact h

theorem Allocator.search_names {transDelay : List (Int × ℚ)} {order : List Int} {s s' : Search} (hs : s.Names a)
    (h : a.search transDelay task order s = some s') : s'.Names a := by
  induction order generalizing s with
  | nil =>
    cases h
    exact hs
  | cons i order ih =>
    obtain ⟨node, hnode, h⟩ := Option.bind_eq_some_iff.mp h
    obtain ⟨transTime, -, h⟩ := Option.bind_eq_some_iff.mp h
    split_ifs at h with hstop
    · cases h
      exact hs
    · obtain ⟨execTime, -, h⟩ := Option.bind_eq_some_iff.mp h
      obtain ⟨⟨num, temp⟩, hcount, h⟩ := Option.bind_eq_some_iff.mp h
      have hnames : Search.Names { s with tempNode := temp } a := by
        refine ⟨?_, hs.2⟩
        obtain rfl | rfl := countAllocated_node hcount
        · exact hs.1
        · rintro _ ⟨⟩
          exact ⟨node, List.mem_of_find?_eq_some hnode, rfl⟩
      dsimp only at h
      split_ifs at h with hall
      · obtain ⟨w, -, h⟩ := Option.bind_eq_some_iff.mp h
        exact ih (hnames.keepLowest w) h
      · exact ih hnames h

/-- The node that is found is one of the network. -/
theorem Allocator.findNode_mem {i : Int} (h : a.findNode task = some (some i)) : ∃ n ∈ a.network.nodes, n.id = i := by
  obtain ⟨transDelay, -, h⟩ := Option.bind_eq_some_iff.mp h
  obtain ⟨s, hs, h⟩ := Option.bind_eq_some_iff.mp h
  have hnone : Search.Names {} a := by
    constructor
    · rintro _ ⟨⟩
    · rintro _ ⟨⟩
  have hnames := Allocator.search_names hnone hs
  exact hnames.2 i (Option.some.inj h)

end Names

section Returns

theorem sumTimes_returns {tasks : List Task} (h : ∀ t ∈ tasks, t.Divisible) (total : ℚ) :
    ∃ total', sumTimes tasks total = some total' := by
  induction tasks generalizing total with
  | nil => exact ⟨total, rfl⟩
  | cons t tasks ih =>
    obtain ⟨time, htime⟩ := (h t (List.mem_cons_self ..)).head
    obtain ⟨total', htotal⟩ := ih (fun u hu => h u (List.mem_cons_of_mem _ hu)) (total + t.fps * time)
    refine ⟨total', ?_⟩
    unfold sumTimes
    simp only [htime, Option.bind_eq_bind, Option.bind_some, htotal]

theorem fillExecution_returns {tasks : List Task} (h : ∀ t ∈ tasks, t.Divisible) (total : ℚ)
    (execution : Int → Option ℚ) :
    ∃ filled, fillExecution total tasks execution = some filled ∧
      ∀ i, (execution i).isSome ∨ (∃ t ∈ tasks, t.taskId = i) → (filled i).isSome := by
  induction tasks generalizing execution with
  | nil => exact ⟨execution, rfl, fun i hi => hi.elim id (by simp)⟩
  | cons t tasks ih =>
    have hdivide : divide total t.fps = some (total / t.fps) := if_neg (h t (List.mem_cons_self ..)).fps
    obtain ⟨filled, hfilled, hsome⟩ := ih (fun u hu => h u (List.mem_cons_of_mem _ hu))
      (Function.update execution t.taskId (some (total / t.fps)))
    refine ⟨filled, ?_, fun i hi => hsome i ?_⟩
    · unfold fillExecution
      simp only [hdivide, Option.bind_eq_bind, Option.bind_some, hfilled]
    · by_cases hit : i = t.taskId
      · rw [hit, Function.update_self]
        exact Or.inl rfl
      · rw [Function.update_of_ne hit]
        apply hi.imp_right
        rintro ⟨u, hu, rfl⟩
        obtain rfl | hu := List.mem_cons.mp hu
        · exact absurd rfl hit
        · exact ⟨u, hu, rfl⟩

theorem countAllocated_returns {tasks : List Task} {execTime : Int → Option ℚ}
    (h : ∀ t ∈ tasks, (execTime t.taskId).isSome) (trans : ℚ) (node : Int) (num : Nat) (temp : Option Int) :
    ∃ counted, countAllocated execTime trans node tasks num temp = some counted := by
  induction tasks generalizing num temp with
  | nil => exact ⟨_, rfl⟩
  | cons t tasks ih =>
    obtain ⟨time, htime⟩ := Option.isSome_iff_exists.mp (h t (List.mem_cons_self ..))
    unfold countAllocated
    simp only [htime, Option.bind_eq_bind, Option.bind_some]
    split_ifs
    · exact ih (fun u hu => h u (List.mem_cons_of_mem _ hu)) _ _
    · exact ⟨_, rfl⟩

theorem getWorkload_returns {tasks : List Task} (h : ∀ t ∈ tasks, t.Divisible) : ∃ w, getWorkload tasks = some w := by
  induction tasks with
  | nil => exact ⟨0, rfl⟩
  | cons t tasks ih =>
    have ht := h t (List.mem_cons_self ..)
    obtain ⟨time, htime⟩ := ht.head
    obtain ⟨w, hw⟩ := ih fun u hu => h u (List.mem_cons_of_mem _ hu)
    refine ⟨time / t.deadline + w, ?_⟩
    unfold getWorkload
    simp only [htime, divide, if_neg ht.deadline, hw, Option.bind_eq_bind, Option.bind_some, Option.pure_def]

theorem getExecTime_returns {node : EdgeNode} {task : Task} (h : ∀ t ∈ node.tasklist ++ [task], t.Divisible) :
    ∃ execTime, getExecTime node task = some execTime ∧
      ∀ t ∈ node.tasklist ++ [task], (execTime t.taskId).isSome := by
  obtain ⟨total, htotal⟩ := sumTimes_returns h 0
  obtain ⟨filled, hfilled, hsome⟩ := fillExecution_returns h total fun _ => none
  refine ⟨filled, ?_, fun t ht => hsome t.taskId (Or.inr ⟨t, ht, rfl⟩)⟩
  unfold getExecTime
  simp only [htotal, Option.bind_eq_bind, Option.bind_some, hfilled]

variable {a a' : Allocator} {task : Task} {pending rest : List Task}

/-- Frames take time to any node. -/
theorem Allocator.delay_pos
    (hband : ∀ m ∈ a.network.nodes, ∀ n ∈ a.network.nodes, ∃ b, a.bandwidthMap (m.id, n.id) = some b ∧ 0 < b)
    {sensor : Sensor} (hsensor : a.getSensor task = some sensor) (hsize : 0 < sensor.frameSize) {node : EdgeNode}
    (hn : node ∈ a.network.nodes) : 0 < a.delay task node.id := by
  obtain ⟨m, hm, -⟩ := Option.bind_eq_some_iff.mp hsensor
  have hid : m.id = task.nodeId := by simpa using List.find?_some hm
  obtain ⟨b, hb, hpos⟩ := hband m (List.mem_of_find?_eq_some hm) node hn
  unfold Allocator.delay
  rw [hsensor, ← hid, hb]
  exact div_pos hsize hpos

/-- Some node gets the frames of the task within its deadline. The search computes nothing for other tasks. -/
def Allocator.Reaches (a : Allocator) (task : Task) : Prop :=
  ∃ n ∈ a.network.nodes, a.delay task n.id ≤ task.deadline

/-- A state in which nothing raises while the tasks `pending` are placed one after the other. -/
structure Allocator.Placeable (a : Allocator) (pending : List Task) : Prop where
  bandwidth : ∀ m ∈ a.network.nodes, ∀ n ∈ a.network.nodes, ∃ b, a.bandwidthMap (m.id, n.id) = some b ∧ b ≠ 0
  placed : ∀ n ∈ a.network.nodes, ∀ t ∈ n.tasklist, t.Divisible
  waiting : ∀ t ∈ pending, (a.Reaches t → t.Divisible) ∧ (a.getSensor t).isSome
  candidates : pending.Subperm a.candidates

theorem Allocator.Placeable.divisible (h : a.Placeable (task :: rest)) (hreach : a.Reaches task) {node : EdgeNode}
    (hn : node ∈ a.network.nodes) : ∀ t ∈ node.tasklist ++ [task], t.Divisible := by
  intro t ht
  obtain hold | hnew := List.mem_append.mp ht
  · exact h.placed node hn t hold
  · rw [List.mem_singleton.mp hnew]
    exact (h.waiting task (List.mem_cons_self ..)).1 hreach

theorem Allocator.Placeable.search_returns (h : a.Placeable (task :: rest)) (hreach : a.Reaches task) {order : List Int}
    (horder : ∀ i ∈ order, ∃ n ∈ a.network.nodes, n.id = i) (s : Search) :
    ∃ s', a.search (a.network.nodes.map fun n => (n.id, a.delay task n.id)) task order s = some s' := by
  induction order generalizing s with
  | nil => exact ⟨s, rfl⟩
  | cons i order ih =>
    obtain ⟨node, hn, rfl⟩ := horder i (List.mem_cons_self ..)
    have hrest := ih fun j hj => horder j (List.mem_cons_of_mem _ hj)
    have hlookup := lookup_map (fun n => a.delay task n.id) hn a.network.nodup
    obtain ⟨execTime, hexec, hsome⟩ := getExecTime_returns (h.divisible hreach hn)
    obtain ⟨⟨num, temp⟩, hcount⟩ := countAllocated_returns hsome (a.delay task node.id) node.id 0 s.tempNode
    obtain ⟨w, hw⟩ := getWorkload_returns (h.divisible hreach hn)
    rw [Allocator.search]
    simp only [EdgeNodeNetwork.get_id hn, hlookup, hexec, hcount, hw, Option.bind_eq_bind, Option.bind_some,
      Option.pure_def]
    split_ifs
    · exact ⟨s, rfl⟩
    · exact hrest _
    · exact hrest _

/-- The search ends before its first node when none is in reach. -/
theorem Allocator.search_of_not_reaches (hreach : ¬a.Reaches task) {order : List Int}
    (horder : ∀ i ∈ order, ∃ n ∈ a.network.nodes, n.id = i) (s : Search) :
    a.search (a.network.nodes.map fun n => (n.id, a.delay task n.id)) task order s = some s := by
  cases order with
  | nil => rfl
  | cons i order =>
    obtain ⟨node, hn, rfl⟩ := horder i (List.mem_cons_self ..)
    have hlate : task.deadline < a.delay task node.id := not_le.mp fun hle => hreach ⟨node, hn, hle⟩
    have hlookup := lookup_map (fun n => a.delay task n.id) hn a.network.nodup
    rw [Allocator.search]
    simp only [EdgeNodeNetwork.get_id hn, hlookup, Option.bind_eq_bind, Option.bind_some, if_pos hlate, Option.pure_def]

private theorem mem_nodeOrder (a : Allocator) (task : Task) :
    ∀ i ∈ ((a.network.nodes.map fun n => (n.id, a.delay task n.id)).insertionSort (·.2 ≤ ·.2)).map (·.1),
      ∃ n ∈ a.network.nodes, n.id = i := by
  intro i hi
  obtain ⟨entry, hentry, rfl⟩ := List.mem_map.mp hi
  obtain ⟨n, hn, rfl⟩ := List.mem_map.mp ((List.mem_insertionSort _).mp hentry)
  exact ⟨n, hn, rfl⟩

/-- The search raises nothing, and finds no node if the frames of the task reach none in time. -/
theorem Allocator.Placeable.findNode_returns (h : a.Placeable (task :: rest)) :
    ∃ found, a.findNode task = some found ∧ (¬a.Reaches task → found = none) := by
  have hdelay := a.getTransDelay_eq (h.waiting task (List.mem_cons_self ..)).2 h.bandwidth
  have horder := mem_nodeOrder a task
  unfold Allocator.findNode
  simp only [hdelay, Option.bind_eq_bind, Option.bind_some, Option.pure_def]
  by_cases hreach : a.Reaches task
  · obtain ⟨s, hs⟩ := h.search_returns hreach horder {}
    exact ⟨s.currentNode, by rw [hs]; rfl, fun hnot => absurd hreach hnot⟩
  · exact ⟨none, by rw [a.search_of_not_reaches hreach horder]; rfl, fun _ => rfl⟩

end Returns

section Step

variable {a a' : Allocator} {task : Task} {pending rest : List Task}

/-- All that the placement of a task can do, to whatever allocator. -/
theorem Allocator.placeTask_cases (h : a.placeTask task = some a') :
    a' = a ∨ ∃ n ∈ a.network.nodes, task ∈ a.candidates ∧ a' = a.placed task n.id := by
  unfold Allocator.placeTask at h
  obtain ⟨found, hfound, h⟩ := Option.bind_eq_some_iff.mp h
  cases found with
  | none =>
    cases h
    exact Or.inl rfl
  | some i =>
    obtain ⟨n, hn, rfl⟩ := a.findNode_mem hfound
    dsimp only at h
    split_ifs at h with hcandidate
    cases h
    exact Or.inr ⟨n, hn, hcandidate, rfl⟩

theorem Allocator.Placeable.mem (h : a.Placeable (task :: rest)) : task ∈ a.candidates :=
  h.candidates.subset (List.mem_cons_self ..)

private theorem Allocator.Placeable.left (h : a.Placeable (task :: rest)) : a.Placeable rest where
  bandwidth := h.bandwidth
  placed := h.placed
  waiting := fun t ht => h.waiting t (List.mem_cons_of_mem _ ht)
  candidates := (List.sublist_cons_self task rest).subperm.trans h.candidates

theorem Allocator.ids_placed (a : Allocator) (task : Task) (i : Int) :
    (a.placed task i).network.nodes.map (·.id) = a.network.nodes.map (·.id) := by
  unfold Allocator.placed EdgeNodeNetwork.insertTask
  rw [List.map_map]
  apply List.map_congr_left
  intro node _
  simp only [Function.comp_apply]
  split_ifs <;> simp

theorem Allocator.placed_reaches (i : Int) {t : Task} : (a.placed task i).Reaches t ↔ a.Reaches t := by
  have hids : ∀ id, (∃ n ∈ (a.placed task i).network.nodes, n.id = id) ↔ ∃ n ∈ a.network.nodes, n.id = id := by
    intro id
    have hmap := a.ids_placed task i
    rw [← List.mem_map, ← List.mem_map, hmap]
  unfold Allocator.Reaches
  rw [Allocator.placed_delay]
  constructor
  · rintro ⟨n, hn, hle⟩
    obtain ⟨m, hm, hid⟩ := (hids n.id).mp ⟨n, hn, rfl⟩
    exact ⟨m, hm, hid ▸ hle⟩
  · rintro ⟨n, hn, hle⟩
    obtain ⟨m, hm, hid⟩ := (hids n.id).mpr ⟨n, hn, rfl⟩
    exact ⟨m, hm, hid ▸ hle⟩

theorem Allocator.placed_bandwidth {P : Option ℚ → Prop} (i : Int)
    (h : ∀ m ∈ a.network.nodes, ∀ n ∈ a.network.nodes, P (a.bandwidthMap (m.id, n.id))) :
    ∀ m ∈ (a.placed task i).network.nodes, ∀ n ∈ (a.placed task i).network.nodes, P (a.bandwidthMap (m.id, n.id)) := by
  intro m' hm' n' hn'
  obtain ⟨m, hm, hmid, -⟩ := Allocator.mem_placed hm'
  obtain ⟨n, hn, hnid, -⟩ := Allocator.mem_placed hn'
  rw [hmid, hnid]
  exact h m hm n hn

private theorem Allocator.Placeable.placed_step (h : a.Placeable (task :: rest)) (hreach : a.Reaches task) (i : Int) :
    (a.placed task i).Placeable rest where
  bandwidth := Allocator.placed_bandwidth (P := fun entry => ∃ b, entry = some b ∧ b ≠ 0) i h.bandwidth
  placed := by
    intro n' hn' t ht
    obtain ⟨n, hn, -, hlist⟩ := Allocator.mem_placed hn'
    rw [hlist] at ht
    apply h.divisible hreach hn t
    split_ifs at ht
    · exact ht
    · exact List.mem_append_left _ ht
  waiting := by
    intro t ht
    rw [Allocator.placed_getSensor, Allocator.placed_reaches]
    exact h.waiting t (List.mem_cons_of_mem _ ht)
  candidates := by
    have herase := h.candidates.erase task
    rwa [List.erase_cons_head] at herase

/-- A placement that does not raise leaves a state in which the next one does not. -/
theorem Allocator.Placeable.step (h : a.Placeable (task :: rest)) :
    ∃ a', a.placeTask task = some a' ∧ a'.Placeable rest := by
  obtain ⟨found, hfound, hnone⟩ := h.findNode_returns
  refine ⟨_, Allocator.placeTask_returns hfound h.mem, ?_⟩
  cases found with
  | none => exact h.left
  | some i =>
    have hreach : a.Reaches task := by
      by_contra hreach
      exact absurd (hnone hreach) nofun
    exact h.placed_step hreach i

/-- The placement of all pending tasks raises nothing. -/
theorem Allocator.Placeable.placeTasks_returns (h : a.Placeable pending) :
    ∃ a', Allocator.placeTasks pending a = some a' := by
  induction pending generalizing a with
  | nil => exact ⟨a, rfl⟩
  | cons task rest ih =>
    obtain ⟨b, hb, hplaceable⟩ := h.step
    obtain ⟨a', ha'⟩ := ih hplaceable
    refine ⟨a', ?_⟩
    rw [Allocator.placeTasks, hb]
    exact ha'

/-- A new allocator can place its tasks in any order. -/
theorem Allocator.placeable_create {tasks order : List Task} {network : EdgeNodeNetwork}
    {bandwidthMap : Int × Int → Option ℚ}
    (hband : ∀ m ∈ network.nodes, ∀ n ∈ network.nodes, ∃ b, bandwidthMap (m.id, n.id) = some b ∧ 0 < b)
    (hplaced : ∀ n ∈ network.nodes, ∀ t ∈ n.tasklist, t.Divisible)
    (hdivisible : ∀ t ∈ tasks, (Allocator.create tasks network bandwidthMap).Reaches t → t.Divisible)
    (hsensors : ∀ t ∈ tasks, ((Allocator.create tasks network bandwidthMap).getSensor t).isSome)
    (hperm : order.Perm tasks) : (Allocator.create tasks network bandwidthMap).Placeable order where
  bandwidth := by
    intro m hm n hn
    obtain ⟨b, hb, hpos⟩ := hband m hm n hn
    exact ⟨b, hb, hpos.ne'⟩
  placed := hplaced
  waiting := fun t ht => ⟨hdivisible t (hperm.mem_iff.mp ht), hsensors t (hperm.mem_iff.mp ht)⟩
  candidates := hperm.subperm

/-- The rule for runs of the loop: what a placement keeps. -/
theorem Allocator.placeTasks_inv (Inv : Allocator → Prop)
    (hstep : ∀ a task a', Inv a → a.placeTask task = some a' → Inv a') (ha : Inv a)
    (h : Allocator.placeTasks pending a = some a') : Inv a' := by
  induction pending generalizing a with
  | nil =>
    cases h
    exact ha
  | cons task rest ih =>
    obtain ⟨b, hb, h⟩ := Option.bind_eq_some_iff.mp h
    exact ih (hstep a task b ha hb) h

end Step

section Raises

variable {a a' : Allocator} {task : Task} {pending : List Task}

private theorem optTime_of_sumTimes {tasks : List Task} {total total' : ℚ} (h : sumTimes tasks total = some total') :
    ∀ t ∈ tasks, t.optTime ≠ [] := by
  induction tasks generalizing total with
  | nil => exact fun _ hnone => absurd hnone List.not_mem_nil
  | cons t tasks ih =>
    obtain ⟨time, htime, h⟩ := Option.bind_eq_some_iff.mp h
    refine List.forall_mem_cons.mpr ⟨fun hnil => ?_, ih h⟩
    rw [hnil] at htime
    cases htime

private theorem fps_of_fillExecution {tasks : List Task} {total : ℚ} {execution filled : Int → Option ℚ}
    (h : fillExecution total tasks execution = some filled) : ∀ t ∈ tasks, t.fps ≠ 0 := by
  induction tasks generalizing execution with
  | nil => exact fun _ hnone => absurd hnone List.not_mem_nil
  | cons t tasks ih =>
    obtain ⟨time, htime, h⟩ := Option.bind_eq_some_iff.mp h
    refine List.forall_mem_cons.mpr ⟨fun hzero => ?_, ih h⟩
    rw [divide, if_pos hzero] at htime
    cases htime

/-- The execution times of a node and a task need the numbers of the task. -/
theorem task_of_getExecTime {node : EdgeNode} {execTime : Int → Option ℚ} (h : getExecTime node task = some execTime) :
    task.fps ≠ 0 ∧ task.optTime ≠ [] := by
  have hmem : task ∈ node.tasklist ++ [task] := List.mem_append_right _ (List.mem_singleton_self task)
  obtain ⟨total, htotal, h⟩ := Option.bind_eq_some_iff.mp h
  exact ⟨fps_of_fillExecution h task hmem, optTime_of_sumTimes htotal task hmem⟩

/-- A task in reach of some node is in reach of the first one of the search, so its numbers are needed. -/
theorem Allocator.task_of_placeTask
    (hband : ∀ m ∈ a.network.nodes, ∀ n ∈ a.network.nodes, ∃ b, a.bandwidthMap (m.id, n.id) = some b ∧ b ≠ 0)
    (hsensor : (a.getSensor task).isSome) (hreach : a.Reaches task) (h : a.placeTask task = some a') :
    task.fps ≠ 0 ∧ task.optTime ≠ [] := by
  obtain ⟨found, hfound, -⟩ := Option.bind_eq_some_iff.mp h
  unfold Allocator.findNode at hfound
  rw [a.getTransDelay_eq hsensor hband] at hfound
  simp only [Option.bind_eq_bind, Option.bind_some] at hfound
  obtain ⟨s, hs, -⟩ := Option.bind_eq_some_iff.mp hfound
  obtain ⟨n, hn, hle⟩ := hreach
  have hsorted : ((a.network.nodes.map fun n => (n.id, a.delay task n.id)).insertionSort (·.2 ≤ ·.2)).Pairwise
      fun x y => x.2 ≤ y.2 := pairwise_insertionSort_key _
  have hmem : (n.id, a.delay task n.id) ∈
      (a.network.nodes.map fun n => (n.id, a.delay task n.id)).insertionSort (·.2 ≤ ·.2) :=
    (List.mem_insertionSort _).mpr (List.mem_map_of_mem hn)
  have hentries : ∀ entry ∈ (a.network.nodes.map fun n => (n.id, a.delay task n.id)).insertionSort (·.2 ≤ ·.2),
      ∃ m ∈ a.network.nodes, (m.id, a.delay task m.id) = entry :=
    fun entry hentry => List.mem_map.mp ((List.mem_insertionSort _).mp hentry)
  cases hlist : (a.network.nodes.map fun n => (n.id, a.delay task n.id)).insertionSort (·.2 ≤ ·.2) with
  | nil =>
    rw [hlist] at hmem
    cases hmem
  | cons entry rest =>
    rw [hlist] at hsorted hmem hentries
    obtain ⟨m, hm, rfl⟩ := hentries entry (List.mem_cons_self ..)
    have hnearest : a.delay task m.id ≤ task.deadline := by
      rcases List.mem_cons.mp hmem with heq | hmem
      · exact (Prod.ext_iff.mp heq).2.symm.le.trans hle
      · exact ((List.pairwise_cons.mp hsorted).1 _ hmem).trans hle
    have hlookup := lookup_map (fun n => a.delay task n.id) hm a.network.nodup
    rw [hlist, List.map_cons, Allocator.search] at hs
    simp only [EdgeNodeNetwork.get_id hm, hlookup, if_neg hnearest.not_gt, Option.bind_eq_bind, Option.bind_some] at hs
    obtain ⟨execTime, hexec, -⟩ := Option.bind_eq_some_iff.mp hs
    exact task_of_getExecTime hexec

/-- A run needs the numbers of all its tasks that are in reach of some node. -/
theorem Allocator.tasks_of_placeTasks
    (hband : ∀ m ∈ a.network.nodes, ∀ n ∈ a.network.nodes, ∃ b, a.bandwidthMap (m.id, n.id) = some b ∧ b ≠ 0)
    (hsensors : ∀ t ∈ pending, (a.getSensor t).isSome) (h : Allocator.placeTasks pending a = some a') :
    ∀ t ∈ pending, a.Reaches t → t.fps ≠ 0 ∧ t.optTime ≠ [] := by
  induction pending generalizing a with
  | nil => exact fun _ hnone => absurd hnone List.not_mem_nil
  | cons task rest ih =>
    obtain ⟨b, hb, hrun⟩ := Option.bind_eq_some_iff.mp h
    have hrest := fun t ht => hsensors t (List.mem_cons_of_mem _ ht)
    refine List.forall_mem_cons.mpr
      ⟨fun hreach => Allocator.task_of_placeTask hband (hsensors task (List.mem_cons_self ..)) hreach hb, ?_⟩
    obtain rfl | ⟨n, -, -, rfl⟩ := Allocator.placeTask_cases hb
    · exact ih hband hrest hrun
    · have hlater := ih (Allocator.placed_bandwidth (P := fun entry => ∃ b, entry = some b ∧ b ≠ 0) n.id hband)
        (fun t ht => by rw [Allocator.placed_getSensor]; exact hrest t ht) hrun
      intro t ht hreach
      exact hlater t ht ((Allocator.placed_reaches n.id).mpr hreach)

end Raises

end Soar.Dispatcher
