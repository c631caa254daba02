import Soar.Dispatcher.TaskPartition
import Soar.Library.Heap

/-! The priority queue of `allocate` as the heap that it is, whose comparison raises for some entries. -/
namespace Soar.Dispatcher
open Soar.Library

/-- `<` of two entries, where equal priorities compare the tasks, which have no order. -/
def taskLt (e f : Int × Task) : Option Bool :=
  if e.1 = f.1 then if e.2 = f.2 then some false else none
  else some (decide (e.1 < f.1))

/-- The loop of `allocate` over its queue, with the tasks that it considers. -/
def Allocator.serve : {n : Nat} → Vector (Int × Task) n → Allocator → Option (List Task × Allocator)
  | 0, _, a => some ([], a)
  | _ + 1, orderedQueue, a => do
    let (entry, orderedQueue) ← heappop taskLt orderedQueue
    let a ← a.placeTask entry.2
    let (considered, a) ← Allocator.serve orderedQueue a
    return (entry.2 :: considered, a)

/-- `allocate` over the heap, with the tasks that it considers. -/
def Allocator.allocateHeap (a : Allocator) : Option (List Task × Allocator) := do
  let orderedQueue ← heappushAll taskLt (a.candidates.map Task.entry) ⟨0, #v[]⟩
  let (considered, a) ← Allocator.serve orderedQueue.2 a
  return (considered, a.deployTasks)

/-- Tasks of the same priority are the same. -/
def NoTies (tasks : List Task) : Prop := ∀ t ∈ tasks, ∀ u ∈ tasks, t.priority = u.priority → t = u

theorem noTies_iff {tasks : List Task} :
    NoTies tasks ↔ ∀ e ∈ tasks.map Task.entry, ∀ f ∈ tasks.map Task.entry, e.1 = f.1 → e = f := by
  constructor
  · intro h e he f hf hef
    obtain ⟨t, ht, rfl⟩ := List.mem_map.mp he
    obtain ⟨u, hu, rfl⟩ := List.mem_map.mp hf
    rw [h t ht u hu hef]
  · intro h t ht u hu htu
    exact congrArg Prod.snd (h t.entry (List.mem_map_of_mem ht) u.entry (List.mem_map_of_mem hu) htu)

section Order

/-- Every order of tasks within a priority agrees with the answers of the comparison. -/
theorem compares_taskLt (rank : Task → Nat) :
    Compares taskLt fun e f => e.1 < f.1 ∨ e.1 = f.1 ∧ rank e.2 ≤ rank f.2 where
  refl := fun e => Or.inr ⟨rfl, Nat.le_refl _⟩
  trans := by
    intro e f g hef hfg
    omega
  of_true := by
    intro e f h
    unfold taskLt at h
    split_ifs at h
    · cases h
    · exact Or.inl (of_decide_eq_true (Option.some.inj h))
  of_false := by
    intro e f h
    unfold taskLt at h
    split_ifs at h with hpriority htask
    · exact Or.inr ⟨hpriority.symm, by rw [htask]⟩
    · have hle := of_decide_eq_false (Option.some.inj h)
      omega

/-- If the queue yields its entries, no two tasks in it share a priority: either could come first. -/
theorem eq_of_heapOrder {entries order : List (Int × Task)} (h : heapOrder taskLt entries = some order)
    {e f : Int × Task} (he : e ∈ entries) (hf : f ∈ entries) (hef : e.1 = f.1) : e = f := by
  by_contra hne
  have htasks : e.2 ≠ f.2 := fun heq => hne (Prod.ext hef heq)
  have hperm := heapOrder_perm h
  obtain ⟨i, hi, hei⟩ := List.mem_iff_getElem.mp (hperm.mem_iff.mpr he)
  obtain ⟨j, hj, hfj⟩ := List.mem_iff_getElem.mp (hperm.mem_iff.mpr hf)
  rcases lt_trichotomy i j with hij | rfl | hij
  · -- `e` came first, but the comparison allows the order in which `f` is the first of its priority
    have hfirst := List.pairwise_iff_getElem.mp
      (heapOrder_pairwise (compares_taskLt fun t => if t = f.2 then 0 else 1) h) i j hi hj hij
    simp [hei, hfj, hef, htasks] at hfirst
  · exact hne (hei.symm.trans hfj)
  · have hfirst := List.pairwise_iff_getElem.mp
      (heapOrder_pairwise (compares_taskLt fun t => if t = e.2 then 0 else 1) h) j i hj hi hij
    simp [hei, hfj, hef, htasks.symm] at hfirst

/-- A heap that answers has compared no two different tasks of one priority. -/
theorem heapOrder_noTies {tasks : List Task} {order : List (Int × Task)}
    (h : heapOrder taskLt (tasks.map Task.entry) = some order) : NoTies tasks :=
  noTies_iff.mpr fun _ he _ hf hef => eq_of_heapOrder h he hf hef

/-- Without ties the heap raises nothing. -/
theorem heapOrder_returns {tasks : List Task} (h : NoTies tasks) :
    ∃ order, heapOrder taskLt (tasks.map Task.entry) = some order := by
  refine Option.isSome_iff_exists.mp (heapOrder_isSome fun e he f hf => ?_)
  unfold taskLt
  split_ifs with hpriority htask
  · rfl
  · exact absurd (congrArg Prod.snd (noTies_iff.mp h e he f hf hpriority)) htask
  · rfl

end Order

theorem Allocator.serve_eq {n : Nat} (orderedQueue : Vector (Int × Task) n) (a : Allocator) :
    Allocator.serve orderedQueue a = (heappopAll taskLt orderedQueue).bind fun order =>
      (Allocator.placeTasks (order.map (·.2)) a).map fun a' => (order.map (·.2), a') := by
  induction n generalizing a with
  | zero => rfl
  | succ n ih =>
    unfold Allocator.serve heappopAll
    cases heappop taskLt orderedQueue with
    | none => rfl
    | some popped =>
      obtain ⟨entry, rest⟩ := popped
      simp only [Option.bind_eq_bind, Option.bind_some, ih]
      cases heappopAll taskLt rest with
      | none =>
        cases a.placeTask entry.2 <;> rfl
      | some order =>
        simp only [Option.bind_some, Option.pure_def, List.map_cons, Allocator.placeTasks]
        cases a.placeTask entry.2 with
        | none => rfl
        | some b =>
          simp only [Option.bind_eq_bind, Option.bind_some]
          cases Allocator.placeTasks (order.map (·.2)) b <;> rfl

/-- `allocate` places the tasks in the order in which the heap yields them. -/
theorem Allocator.allocateHeap_eq (a : Allocator) :
    a.allocateHeap = (heapOrder taskLt (a.candidates.map Task.entry)).bind fun order =>
      (Allocator.placeTasks (order.map (·.2)) a).map fun a' => (order.map (·.2), a'.deployTasks) := by
  unfold Allocator.allocateHeap heapOrder
  cases heappushAll taskLt (a.candidates.map Task.entry) ⟨0, #v[]⟩ with
  | none => rfl
  | some queue =>
    simp only [Option.bind_eq_bind, Option.bind_some, Allocator.serve_eq]
    cases heappopAll taskLt queue.2 with
    | none => rfl
    | some order =>
      simp only [Option.bind_some]
      cases Allocator.placeTasks (order.map (·.2)) a <;> rfl

/-- What the heap yields of the tasks, in the order of their priorities. -/
theorem heapOrder_tasks {tasks : List Task} {order : List (Int × Task)}
    (h : heapOrder taskLt (tasks.map Task.entry) = some order) :
    (order.map (·.2)).Perm tasks ∧ (order.map (·.2)).Pairwise fun t u => t.priority ≤ u.priority := by
  obtain ⟨hperm, hentries⟩ := perm_of_entries (heapOrder_perm h)
  have hpairwise := heapOrder_pairwise (compares_taskLt fun _ => 0) h
  refine ⟨hperm, List.pairwise_map.mpr (hpairwise.imp_of_mem fun {e f} he hf hle => ?_)⟩
  rw [← hentries e he, ← hentries f hf]
  exact hle.elim le_of_lt fun heq => heq.1.le

/-- The heap yields what the sorted queue holds, and raises where that raises. -/
theorem heapOrder_eq_orderTasks (tasks : List Task) : heapOrder taskLt (tasks.map Task.entry) = orderTasks tasks [] := by
  have hlt := compares_taskLt fun _ => 0
  cases horder : heapOrder taskLt (tasks.map Task.entry) with
  | some order =>
    have hties := noTies_iff.mp (heapOrder_noTies horder)
    obtain ⟨queue, hqueue⟩ : ∃ queue, orderTasks tasks [] = some queue := by
      apply orderTasks_returns List.Pairwise.nil
      intro e he f hf
      rw [List.append_nil] at hf
      exact hties e he f hf
    obtain ⟨hperm, hsorted, -⟩ := orderTasks_spec List.Pairwise.nil hqueue
    rw [List.append_nil] at hperm
    have hperm' := heapOrder_perm horder
    -- between the same entries, sorted by priorities that tell them apart, there is no choice
    have heq : order = queue := by
      refine List.Perm.eq_of_pairwise (fun e f he hf hef hfe => ?_)
        ((heapOrder_pairwise hlt horder).imp fun h => h.elim le_of_lt fun heq => heq.1.le) hsorted
        (hperm'.trans hperm.symm)
      exact hties e (hperm'.mem_iff.mp he) f (hperm.mem_iff.mp hf) (le_antisymm hef hfe)
    rw [hqueue, heq]
  | none =>
    cases hqueue : orderTasks tasks [] with
    | none => rfl
    | some queue =>
      obtain ⟨-, -, hties⟩ := orderTasks_spec List.Pairwise.nil hqueue
      rw [List.append_nil] at hties
      obtain ⟨order, hsome⟩ := heapOrder_returns (noTies_iff.mpr hties)
      rw [horder] at hsome
      cases hsome

/-- The heap is a refinement of the sorted queue. -/
theorem Allocator.allocateHeap_allocate (a : Allocator) : a.allocateHeap.map (·.2) = a.allocate := by
  rw [Allocator.allocateHeap_eq, heapOrder_eq_orderTasks]
  unfold Allocator.allocate
  cases orderTasks a.candidates [] with
  | none => rfl
  | some order =>
    simp only [Option.bind_eq_bind, Option.bind_some]
    cases Allocator.placeTasks (order.map (·.2)) a <;> rfl

/-- `allocate` completes and considers every task once, in the order of the priorities. -/
def Allocator.Serves (a : Allocator) : Prop :=
  ∃ considered a', a.allocateHeap = some (considered, a') ∧ considered.Perm a.candidates ∧
    considered.Pairwise fun t u => t.priority ≤ u.priority

theorem Allocator.Serves.noTies {a : Allocator} (h : a.Serves) : NoTies a.candidates := by
  obtain ⟨considered, a', hallocate, -⟩ := h
  rw [Allocator.allocateHeap_eq] at hallocate
  obtain ⟨order, horder, -⟩ := Option.bind_eq_some_iff.mp hallocate
  exact heapOrder_noTies horder

/-- With valid sensors and bandwidths, `allocate` completes and considers every task in the order of the priorities
exactly when no two different tasks share a priority and each task that some node can get the frames of in time has a
frame rate and an execution time. -/
theorem serves_iff {tasks : List Task} {network : EdgeNodeNetwork} {bandwidthMap : Int × Int → Option ℚ}
    (hband : ∀ m ∈ network.nodes, ∀ n ∈ network.nodes, ∃ b, bandwidthMap (m.id, n.id) = some b ∧ 0 < b)
    (hplaced : ∀ n ∈ network.nodes, ∀ t ∈ n.tasklist, t.Divisible)
    (hsensors : ∀ t ∈ tasks, ∃ sensor, (Allocator.create tasks network bandwidthMap).getSensor t = some sensor ∧
      0 < sensor.frameSize) :
    (Allocator.create tasks network bandwidthMap).Serves ↔ NoTies tasks ∧
      ∀ t ∈ tasks, (Allocator.create tasks network bandwidthMap).Reaches t → t.fps ≠ 0 ∧ t.optTime ≠ [] := by
  have hfound : ∀ t ∈ tasks, ((Allocator.create tasks network bandwidthMap).getSensor t).isSome := by
    intro t ht
    obtain ⟨sensor, hsensor, -⟩ := hsensors t ht
    exact Option.isSome_iff_exists.mpr ⟨sensor, hsensor⟩
  constructor
  · intro hserves
    refine ⟨hserves.noTies, ?_⟩
    obtain ⟨considered, a', hheap, -⟩ := hserves
    have hallocate := Allocator.allocateHeap_allocate (Allocator.create tasks network bandwidthMap)
    rw [hheap] at hallocate
    obtain ⟨order, horder, hplace⟩ := Option.bind_eq_some_iff.mp hallocate.symm
    obtain ⟨b, hb, -⟩ := Option.bind_eq_some_iff.mp hplace
    obtain ⟨hentries, -⟩ := orderTasks_spec List.Pairwise.nil horder
    rw [List.append_nil] at hentries
    have hperm := (perm_of_entries hentries).1
    have hneeds := Allocator.tasks_of_placeTasks (fun m hm n hn => (hband m hm n hn).imp fun _ h => ⟨h.1, h.2.ne'⟩)
      (fun t ht => hfound t (hperm.mem_iff.mp ht)) hb
    exact fun t ht => hneeds t (hperm.mem_iff.mpr ht)
  · rintro ⟨hties, hneeds⟩
    have hdivisible : ∀ t ∈ tasks, (Allocator.create tasks network bandwidthMap).Reaches t → t.Divisible := by
      intro t ht hreach
      obtain ⟨hfps, htime⟩ := hneeds t ht hreach
      obtain ⟨sensor, hsensor, hsize⟩ := hsensors t ht
      obtain ⟨n, hn, hle⟩ := hreach
      exact ⟨hfps, htime, ((Allocator.delay_pos hband hsensor hsize hn).trans_le hle).ne'⟩
    obtain ⟨order, horder⟩ := heapOrder_returns hties
    obtain ⟨hperm, hpairwise⟩ := heapOrder_tasks horder
    have hplaceable := Allocator.placeable_create hband hplaced hdivisible hfound hperm
    obtain ⟨a', ha'⟩ := hplaceable.placeTasks_returns
    refine ⟨order.map (·.2), a'.deployTasks, ?_, hperm, hpairwise⟩
    rw [Allocator.allocateHeap_eq, Allocator.create, horder, Option.bind_some]
    exact congrArg (Option.map _) ha'

/-- The two tasks with one priority. -/
private def tiedTasks : List Task := [lidarTask, { thermalTask with priority := 1 }]

/-- Two tasks with different priorities on two nodes. -/
theorem serves_lidarAndThermal :
    (Allocator.create [thermalTask, lidarTask] lidarAndThermal fun _ => some 100).Serves := by
  have hposed : WellPosed [thermalTask, lidarTask] lidarAndThermal fun _ => some 100 :=
    wellPosed_lidarAndThermal (.inl rfl) (by decide) (by decide) (by decide)
  have hsensors : ∀ t ∈ [thermalTask, lidarTask], ∃ sensor, (Allocator.create [thermalTask, lidarTask] lidarAndThermal
      fun _ => some 100).getSensor t = some sensor ∧ 0 < sensor.frameSize :=
    List.forall_mem_cons.mpr ⟨⟨_, rfl, by decide⟩, List.forall_mem_singleton.mpr ⟨_, rfl, by decide⟩⟩
  have hneeds : ∀ t ∈ [thermalTask, lidarTask], t.fps ≠ 0 ∧ t.optTime ≠ [] := by decide
  refine (serves_iff hposed.bandwidth_pos (by decide) hsensors).mpr
    ⟨fun t ht u hu htu => ?_, fun t ht _ => hneeds t ht⟩
  exact List.inj_on_of_nodup_map hposed.priorities ht hu htu

/-- The lidar task and the thermal task with one priority: the second `put` compares the tasks and raises. -/
theorem not_serves_tiedTasks :
    ¬∀ (tasks : List Task) (network : EdgeNodeNetwork) (bandwidthMap : Int × Int → Option ℚ),
      (∀ n ∈ network.nodes, n.tasklist = []) →
      (∀ m ∈ network.nodes, ∀ n ∈ network.nodes, ∃ b, bandwidthMap (m.id, n.id) = some b ∧ 0 < b) →
      (∀ t ∈ tasks, t.Divisible) →
      (∀ t ∈ tasks, ((Allocator.create tasks network bandwidthMap).getSensor t).isSome) →
      (Allocator.create tasks network bandwidthMap).Serves := by
  intro h
  have hserves := h tiedTasks lidarAndThermal (fun _ => some 100) (by decide)
    (fun _ _ _ _ => ⟨100, rfl, by decide⟩) (by decide) (by decide)
  have hsame := hserves.noTies lidarTask (by decide) { thermalTask with priority := 1 } (by decide) rfl
  exact absurd hsame (by decide)

end Soar.Dispatcher
