import Soar.Dispatcher.GreedyChoice

/-! Whether the tasks that `allocate` has placed meet their deadlines. -/
namespace Soar.Dispatcher

/-- Every task meets its own deadline on its node, with its own communication delay. -/
def Allocator.Schedulable (a : Allocator) : Prop :=
  ∀ n ∈ a.network.nodes, ∀ t ∈ n.tasklist, totalTime n.tasklist / t.fps + a.delay t n.id ≤ t.deadline

instance (a : Allocator) : Decidable a.Schedulable := by
  unfold Allocator.Schedulable
  infer_instance

section Overlooking

variable (delay : Task → Int → ℚ)

/-- With the new task on the node, `t` meets its deadline if it had the communication delay of the
new task, and misses it with its own. -/
def Overlooks (task : Task) (node : Int × List Task) (t : Task) : Prop :=
  totalTime (node.2 ++ [task]) / t.fps + delay task node.1 ≤ t.deadline ∧
    t.deadline < totalTime (node.2 ++ [task]) / t.fps + delay t node.1

/-- The node of least workload that fits `task` has no task that is overlooked there. -/
def Plan.Careful (p : Plan) (task : Task) : Prop :=
  ∀ node ∈ p.leastNode delay task, ∀ t ∈ node.2, ¬ Overlooks delay task node t

/-- The greedy allocation of the tasks to `p` is careful with each of them. -/
def Plan.AllCareful : List Task → Plan → Prop
  | [], _ => True
  | task :: rest, p => p.Careful delay task ∧ Plan.AllCareful rest (p.assign delay task)

variable (nodes : List Int)

/-- What the node `id` may hold after the turns of some tasks. Those that it holds have passed the check, and the others
either fail it or fit on another node. -/
inductive MayHold (id : Int) : List Task → List Task → Prop
  | nil : MayHold id [] []
  | join {done held : List Task} {task : Task} : MayHold id done held → Fits delay task (id, held) →
      MayHold id (done ++ [task]) (held ++ [task])
  | pass {done held : List Task} {task : Task} : MayHold id done held →
      (Fits delay task (id, held) → ∃ m ∈ nodes, m ≠ id ∧ Fits delay task (m, [])) → MayHold id (done ++ [task]) held

/-- No task is let in where it overlooks one that the node may hold. -/
def SoundChecks (tasks : List Task) : Prop :=
  ∀ id ∈ nodes, ∀ done task rest held, byPriority tasks = done ++ task :: rest → MayHold delay nodes id done held →
    Fits delay task (id, held) → ∀ t ∈ held, ¬ Overlooks delay task (id, held) t

/-- The task fits on one node at most. -/
def OneInReach (task : Task) : Prop :=
  ∀ m ∈ nodes, ∀ n ∈ nodes, Fits delay task (m, []) → Fits delay task (n, []) → m = n

/-- The greedy allocation of the first tasks. -/
private def allocated (tasks done : List Task) : Plan := done.foldl (Plan.assign delay) ⟨nodes.map (·, []), tasks⟩

variable {delay nodes}

theorem MayHold.sublist {id : Int} {done held : List Task} (h : MayHold delay nodes id done held) :
    held.Sublist done := by
  induction h with
  | nil => exact List.Sublist.refl _
  | join _ _ ih => exact ih.append (List.Sublist.refl _)
  | pass _ _ ih => exact ih.trans (List.sublist_append_left ..)

/-- Tasks that have no larger delays than the tasks after them are not overlooked. -/
theorem soundChecks_of_delay_le {tasks : List Task} (hpriorities : (tasks.map (·.priority)).Nodup)
    (h : ∀ id ∈ nodes, ∀ t ∈ tasks, ∀ u ∈ tasks, t.priority < u.priority → delay t id ≤ delay u id) :
    SoundChecks delay nodes tasks := by
  intro id hid done task rest held hsplit hheld _ t ht hover
  have hsorted : (done ++ task :: rest).Pairwise fun t u => t.priority < u.priority :=
    hsplit ▸ byPriority_pairwise_lt hpriorities
  have hmem : ∀ u ∈ done ++ task :: rest, u ∈ tasks := fun u hu => mem_byPriority.mp (hsplit ▸ hu)
  have hdone := hheld.sublist.subset ht
  have htask : task ∈ task :: rest := List.mem_cons_self ..
  have hle := h id hid t (hmem t (List.mem_append_left _ hdone)) task (hmem task (List.mem_append_right _ htask))
    ((List.pairwise_append.mp hsorted).2.2 t hdone task htask)
  exact absurd (hover.1.trans_lt hover.2) (add_le_add_right hle _).not_gt

/-- A task that fits on a node would fit there alone. -/
theorem Fits.alone {task : Task} {id : Int} {held : List Task} (h : Fits delay task (id, held))
    (hvalid : ∀ t ∈ held, t.Valid) (htask : task.Valid) : Fits delay task (id, []) := by
  intro t ht
  obtain rfl := List.mem_singleton.mp ht
  have htime : totalTime [t] ≤ totalTime (held ++ [t]) := by
    rw [totalTime_append]
    exact le_add_of_nonneg_left (totalTime_nonneg hvalid)
  exact (add_le_add_left (div_le_div_of_nonneg_right htime htask.fps_pos.le) _).trans
    (h t (List.mem_append_right _ ht))

section Assign

variable {p : Plan} {task : Task} {id : Int} {held done tasks : List Task}

private theorem Plan.assign_ids : (p.assign delay task).lists.map Prod.fst = p.lists.map Prod.fst := by
  unfold Plan.assign
  cases p.leastNode delay task with
  | none => rfl
  | some node =>
    dsimp only
    rw [List.map_map]
    apply List.map_congr_left
    intro m _
    dsimp only [Function.comp_apply]
    split_ifs <;> rfl

private theorem Plan.mem_leastNode {node : Int × List Task} (h : node ∈ p.leastNode delay task) :
    node ∈ p.lists ∧ Fits delay task node := by
  obtain ⟨hmem, hfits⟩ := List.mem_filter.mp (List.argmin_mem h)
  exact ⟨hmem, of_decide_eq_true hfits⟩

-- the task has joined the node of least workload, or nothing has changed
private theorem Plan.mem_assign {node : Int × List Task} (h : node ∈ (p.assign delay task).lists) :
    (node ∈ p.lists ∧ ∀ least ∈ p.leastNode delay task, least.1 ≠ node.1) ∨
      ∃ least ∈ p.leastNode delay task, ∃ m ∈ p.lists, m.1 = least.1 ∧ node = (m.1, m.2 ++ [task]) := by
  unfold Plan.assign at h
  cases hleast : p.leastNode delay task with
  | none =>
    rw [hleast] at h
    exact .inl ⟨h, nofun⟩
  | some least =>
    rw [hleast] at h
    obtain ⟨m, hm, rfl⟩ := List.mem_map.mp h
    split_ifs with heq
    · exact .inr ⟨least, rfl, m, hm, heq, rfl⟩
    · refine .inl ⟨hm, fun least' hleast' => ?_⟩
      obtain rfl := Option.some.inj hleast'
      exact Ne.symm heq

private theorem Plan.exists_leastNode {node : Int × List Task} (hmem : node ∈ p.lists) (hfits : Fits delay task node) :
    ∃ least, least ∈ p.leastNode delay task := by
  cases hleast : p.leastNode delay task with
  | none =>
    have hnil := List.argmin_eq_none.mp hleast
    exact absurd (List.mem_filter.mpr ⟨hmem, decide_eq_true hfits⟩) (hnil ▸ List.not_mem_nil)
  | some least => exact ⟨least, rfl⟩

private theorem Plan.mem_assign_join {node : Int × List Task} (hmem : node ∈ p.lists)
    (hleast : ∃ least ∈ p.leastNode delay task, least.1 = node.1) :
    (node.1, node.2 ++ [task]) ∈ (p.assign delay task).lists := by
  obtain ⟨least, hleast, heq⟩ := hleast
  unfold Plan.assign
  rw [Option.mem_def.mp hleast]
  exact List.mem_map.mpr ⟨node, hmem, if_pos heq.symm⟩

private theorem Plan.mem_assign_pass {node : Int × List Task} (hmem : node ∈ p.lists)
    (hleast : ∀ least ∈ p.leastNode delay task, least.1 ≠ node.1) : node ∈ (p.assign delay task).lists := by
  unfold Plan.assign
  cases h : p.leastNode delay task with
  | none => exact hmem
  | some least => exact List.mem_map.mpr ⟨node, hmem, if_neg (hleast least h).symm⟩

private theorem allocated_concat :
    allocated delay nodes tasks (done ++ [task]) = (allocated delay nodes tasks done).assign delay task := by
  unfold allocated
  rw [List.foldl_append, List.foldl_cons, List.foldl_nil]

private theorem allocated_ids : (allocated delay nodes tasks done).lists.map Prod.fst = nodes := by
  induction done using List.reverseRecOn with
  | nil =>
    change (nodes.map fun id => (id, ([] : List Task))).map Prod.fst = nodes
    rw [List.map_map]
    exact List.map_id nodes
  | append_singleton done task ih => rw [allocated_concat, Plan.assign_ids, ih]

private theorem allocated_nodup (hnodup : nodes.Nodup) :
    ((allocated delay nodes tasks done).lists.map Prod.fst).Nodup := by
  rwa [allocated_ids]

-- from the last task back: it has joined the node, or another one that it fits on
private theorem mayHold_allocated (hnodup : nodes.Nodup) (hvalid : ∀ t ∈ done, t.Valid) {node : Int × List Task}
    (hnode : node ∈ (allocated delay nodes tasks done).lists) :
    node.1 ∈ nodes ∧ MayHold delay nodes node.1 done node.2 := by
  induction done using List.reverseRecOn generalizing node with
  | nil =>
    obtain ⟨id, hid, rfl⟩ := List.mem_map.mp hnode
    exact ⟨hid, .nil⟩
  | append_singleton done task ih =>
    obtain ⟨hvalid', htask⟩ := List.forall_mem_append.mp hvalid
    rw [allocated_concat] at hnode
    rcases Plan.mem_assign hnode with ⟨hmem, hother⟩ | ⟨least, hleast, m, hm, heq, rfl⟩
    · refine ⟨(ih hvalid' hmem).1, .pass (ih hvalid' hmem).2 fun hfits => ?_⟩
      obtain ⟨least, hleast⟩ := Plan.exists_leastNode hmem hfits
      obtain ⟨hlists, hfits'⟩ := Plan.mem_leastNode hleast
      obtain ⟨hid, hheld⟩ := ih hvalid' hlists
      exact ⟨least.1, hid, hother least hleast, hfits'.alone (fun t ht => hvalid' t (hheld.sublist.subset ht))
        (htask task (List.mem_singleton_self task))⟩
    · obtain ⟨hlists, hfits⟩ := Plan.mem_leastNode hleast
      obtain rfl := List.inj_on_of_nodup_map (allocated_nodup hnodup) hm hlists heq
      exact ⟨(ih hvalid' hm).1, .join (ih hvalid' hm).2 hfits⟩

private theorem alone_of_allocated (hnodup : nodes.Nodup) (hvalid : ∀ t ∈ done, t.Valid) (htask : task.Valid)
    {node : Int × List Task} (hnode : node ∈ (allocated delay nodes tasks done).lists) (hfits : Fits delay task node) :
    node.1 ∈ nodes ∧ Fits delay task (node.1, []) := by
  obtain ⟨hid, hheld⟩ := mayHold_allocated hnodup hvalid hnode
  exact ⟨hid, hfits.alone (fun t ht => hvalid t (hheld.sublist.subset ht)) htask⟩

-- a task without a choice goes to the node that it fits on
private theorem mem_leastNode_of_oneInReach (hnodup : nodes.Nodup) (hvalid : ∀ t ∈ done, t.Valid) (htask : task.Valid)
    (hone : OneInReach delay nodes task) {node : Int × List Task}
    (hnode : node ∈ (allocated delay nodes tasks done).lists) (hfits : Fits delay task node) :
    node ∈ (allocated delay nodes tasks done).leastNode delay task := by
  obtain ⟨least, hleast⟩ := Plan.exists_leastNode hnode hfits
  obtain ⟨hmem, hfits'⟩ := Plan.mem_leastNode hleast
  obtain ⟨hid, halone⟩ := alone_of_allocated hnodup hvalid htask hnode hfits
  obtain ⟨hid', halone'⟩ := alone_of_allocated hnodup hvalid htask hmem hfits'
  obtain rfl := List.inj_on_of_nodup_map (allocated_nodup hnodup) hmem hnode (hone _ hid' _ hid halone' halone)
  exact hleast

private theorem mem_allocated (hnodup : nodes.Nodup) (hid : id ∈ nodes) (h : MayHold delay nodes id done held)
    (hvalid : ∀ t ∈ done, t.Valid) (hreach : ∀ t ∈ done, OneInReach delay nodes t) :
    (id, held) ∈ (allocated delay nodes tasks done).lists := by
  induction h with
  | nil => exact List.mem_map_of_mem hid
  | @join done held task _ hfits ih =>
    obtain ⟨hvalid', htask⟩ := List.forall_mem_append.mp hvalid
    obtain ⟨hreach', hone⟩ := List.forall_mem_append.mp hreach
    have hlast := List.mem_singleton_self task
    have hmem := ih hvalid' hreach'
    rw [allocated_concat]
    exact Plan.mem_assign_join hmem
      ⟨_, mem_leastNode_of_oneInReach hnodup hvalid' (htask task hlast) (hone task hlast) hmem hfits, rfl⟩
  | @pass done held task _ hother ih =>
    obtain ⟨hvalid', htask⟩ := List.forall_mem_append.mp hvalid
    obtain ⟨hreach', hone⟩ := List.forall_mem_append.mp hreach
    have hlast := List.mem_singleton_self task
    have hmem := ih hvalid' hreach'
    have hnot : ¬ Fits delay task (id, held) := by
      intro hfits
      obtain ⟨-, halone⟩ := alone_of_allocated hnodup hvalid' (htask task hlast) hmem hfits
      obtain ⟨m, hm, hne, hfits'⟩ := hother hfits
      exact hne (hone task hlast m hm id hid hfits' halone)
    rw [allocated_concat]
    refine Plan.mem_assign_pass hmem fun least hleast heq => ?_
    obtain ⟨hlists, hfits⟩ := Plan.mem_leastNode hleast
    obtain rfl := List.inj_on_of_nodup_map (allocated_nodup hnodup) hlists hmem heq
    exact hnot hfits

end Assign

private theorem Plan.allCareful_iff {rest : List Task} {p : Plan} : Plan.AllCareful delay rest p ↔
    ∀ done task rest', rest = done ++ task :: rest' → (done.foldl (Plan.assign delay) p).Careful delay task := by
  induction rest generalizing p with
  | nil => exact iff_of_true trivial fun done task rest' heq => absurd heq.symm (List.append_ne_nil_of_right_ne_nil _
      (List.cons_ne_nil _ _))
  | cons t rest ih =>
    rw [Plan.AllCareful, ih]
    constructor
    · rintro ⟨hfirst, hrest⟩ (_ | ⟨d, done⟩) task rest' heq
      · obtain ⟨rfl, -⟩ := List.cons.inj heq
        exact hfirst
      · obtain ⟨rfl, hrest'⟩ := List.cons.inj heq
        exact hrest done task rest' hrest'
    · exact fun h => ⟨h [] t rest rfl, fun done task rest' heq => h (t :: done) task rest' (congrArg (t :: ·) heq)⟩

section Order

variable {tasks : List Task} (hnodup : nodes.Nodup) (hvalid : ∀ t ∈ tasks, t.Valid)
include hnodup hvalid

private theorem allCareful_of_soundChecks (h : SoundChecks delay nodes tasks) :
    Plan.AllCareful delay (byPriority tasks) (allocated delay nodes tasks []) := by
  rw [Plan.allCareful_iff]
  intro done task rest hsplit node hnode
  have hvalid' : ∀ t ∈ done, t.Valid := fun t ht =>
    hvalid t (mem_byPriority.mp (hsplit ▸ List.mem_append_left _ ht))
  obtain ⟨hlists, hfits⟩ := Plan.mem_leastNode hnode
  obtain ⟨hid, hheld⟩ := mayHold_allocated hnodup hvalid' hlists
  exact h node.1 hid done task rest node.2 hsplit hheld hfits

private theorem soundChecks_of_allCareful (hreach : ∀ t ∈ tasks, OneInReach delay nodes t)
    (h : Plan.AllCareful delay (byPriority tasks) (allocated delay nodes tasks [])) :
    SoundChecks delay nodes tasks := by
  intro id hid done task rest held hsplit hheld hfits
  have hmem : ∀ t ∈ done ++ [task], t ∈ tasks := by
    intro t ht
    rw [List.append_cons] at hsplit
    exact mem_byPriority.mp (hsplit ▸ List.mem_append_left _ ht)
  obtain ⟨hdone, hlast⟩ := List.forall_mem_append.mp hmem
  have htask := hlast task (List.mem_singleton_self task)
  have hvalid' : ∀ t ∈ done, t.Valid := fun t ht => hvalid t (hdone t ht)
  have hlists : (id, held) ∈ (allocated delay nodes tasks done).lists :=
    mem_allocated hnodup hid hheld hvalid' fun t ht => hreach t (hdone t ht)
  exact Plan.allCareful_iff.mp h done task rest hsplit (id, held)
    (mem_leastNode_of_oneInReach hnodup hvalid' (hvalid task htask) (hreach task htask) hlists hfits)

end Order


end Overlooking

section Step

variable {a a' : Allocator} {task : Task} {rest : List Task}

private theorem totalTime_le_append (h : a.Ready (task :: rest)) {n : EdgeNode} (hn : n ∈ a.network.nodes) {t : Task}
    (ht : t ∈ n.tasklist ++ [task]) : totalTime n.tasklist / t.fps ≤ totalTime (n.tasklist ++ [task]) / t.fps := by
  have hnew : 0 ≤ totalTime [task] :=
    totalTime_nonneg fun u hu => h.valid hn u (List.mem_append_right _ hu)
  rw [totalTime_append]
  exact div_le_div_of_nonneg_right (le_add_of_nonneg_right hnew) (h.valid hn t ht).fps_pos.le

private theorem Allocator.Ready.schedulable_placed (h : a.Ready (task :: rest)) {n : EdgeNode}
    (hn : n ∈ a.network.nodes) (hadmits : a.Admits task n) :
    (a.placed task n.id).Schedulable ↔
      a.Schedulable ∧ ∀ t ∈ n.tasklist, ¬ Overlooks a.delay task (n.id, n.tasklist) t := by
  have hlist : ∀ m ∈ a.network.nodes, (a.placed task n.id).Schedulable →
      ∀ t ∈ (if m.id = n.id then m.tasklist ++ [task] else m.tasklist),
        totalTime (if m.id = n.id then m.tasklist ++ [task] else m.tasklist) / t.fps + a.delay t m.id ≤ t.deadline := by
    intro m hm hsched t ht
    have hmem : (if m.id = n.id then m.insertTask task else m) ∈ (a.placed task n.id).network.nodes :=
      List.mem_map_of_mem hm
    have hm' := hsched _ hmem t
    rw [Allocator.placed_delay] at hm'
    split_ifs at hm' ht ⊢
    · rw [EdgeNode.insertTask_tasklist (h.not_mem hm), EdgeNode.insertTask_id] at hm'
      exact hm' ht
    · exact hm' ht
  constructor
  · intro hsched
    refine ⟨fun m hm t ht => ?_, fun t ht hover => ?_⟩
    · have hm' := hlist m hm hsched t
      split_ifs at hm'
      · have ht' := List.mem_append_left [task] ht
        exact (add_le_add_left (totalTime_le_append h hm ht') _).trans (hm' ht')
      · exact hm' ht
    · have hn' := hlist n hn hsched t
      rw [if_pos rfl] at hn'
      exact absurd (hn' (List.mem_append_left _ ht)) hover.2.not_ge
  · rintro ⟨hsched, hover⟩ m' hm' t ht
    obtain ⟨m, hm, hid, htasks⟩ := h.mem_placed hm'
    rw [htasks] at ht ⊢
    rw [Allocator.placed_delay, hid]
    split_ifs at ht ⊢ with hmn
    · have hmn' : m = n := a.network.eq_of_id hm hn hmn
      subst hmn'
      have hcheck := hadmits t ht
      rcases List.mem_append.mp ht with hold | hnew
      · exact not_lt.mp fun hlt => hover t hold ⟨hcheck, hlt⟩
      · rwa [List.mem_singleton.mp hnew] at hcheck ⊢
    · exact hsched m hm t ht

private theorem Allocator.Ready.leastNode_eq (h : a.Ready (task :: rest)) {n : EdgeNode} (hn : n ∈ a.network.nodes)
    (hfound : a.findNode task = some (some n.id)) : a.plan.leastNode a.delay task = some (n.id, n.tasklist) := by
  obtain ⟨node, hleast, hid⟩ := Option.map_eq_some_iff.mp (h.findNode_leastNode hfound).symm
  have hmem : node ∈ a.plan.lists := List.mem_of_mem_filter (List.argmin_mem hleast)
  obtain ⟨m, hm, rfl⟩ := List.mem_map.mp hmem
  rw [hleast, a.network.eq_of_id hm hn hid]

private theorem Allocator.Ready.schedulable_step (h : a.Ready (task :: rest)) (hp : a.placeTask task = some a') :
    a'.Schedulable ↔ a.Schedulable ∧ a.plan.Careful a.delay task := by
  rcases h.placeTask_cases hp with ⟨hfound, rfl⟩ | ⟨n, hn, hfound, hadmits, rfl⟩
  · have hnone : a'.plan.leastNode a'.delay task = none :=
      Option.map_eq_none_iff.mp (h.findNode_leastNode hfound).symm
    rw [Plan.Careful, hnone]
    simp
  · rw [h.schedulable_placed hn hadmits, Plan.Careful, h.leastNode_eq hn hfound]
    simp

private theorem Allocator.Ready.schedulable_run (h : a.Ready rest) (hp : Allocator.placeTasks rest a = some a') :
    a'.Schedulable ↔ a.Schedulable ∧ a.plan.AllCareful a.delay rest := by
  induction rest generalizing a with
  | nil =>
    cases hp
    simp [Plan.AllCareful]
  | cons task rest ih =>
    obtain ⟨b, hb, hp⟩ := Option.bind_eq_some_iff.mp hp
    obtain ⟨hready, hdelay⟩ := h.step hb
    rw [ih hready hp, h.schedulable_step hb, hdelay, h.plan_step hb, and_assoc]
    rfl

end Step

/-- What decides is whether the greedy allocation takes a task to a node where one that has a larger communication
delay is overlooked. -/
theorem schedulable_iff_allCareful {tasks : List Task} {network : EdgeNodeNetwork}
    {bandwidthMap : Int × Int → Option ℚ} (h : WellPosed tasks network bandwidthMap) {a : Allocator}
    (ha : (Allocator.create tasks network bandwidthMap).allocate = some a) :
    a.Schedulable ↔ Plan.AllCareful (Allocator.create tasks network bandwidthMap).delay (byPriority tasks)
      ⟨(network.nodes.map (·.id)).map (·, []), tasks⟩ := by
  rw [allocate_eq h] at ha
  obtain ⟨b, hb, rfl⟩ := Option.map_eq_some_iff.mp ha
  have hempty : (Allocator.create tasks network bandwidthMap).Schedulable := by
    intro n hn t ht
    rw [h.empty n hn] at ht
    exact absurd ht List.not_mem_nil
  have hrun := h.ready.schedulable_run hb
  rw [and_iff_right hempty, h.plan_create] at hrun
  exact hrun

private theorem exists_of_any {P : Allocator → Prop} [DecidablePred P] {o : Option Allocator}
    (h : o.any (fun a => P a) = true) : ∃ a, o = some a ∧ P a := by
  cases o with
  | none => cases h
  | some a => exact ⟨a, rfl, of_decide_eq_true h⟩

end Soar.Dispatcher
