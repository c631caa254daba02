import Soar.Dispatcher.EdgeNode
import Soar.Library.AlongRun
import Mathlib.Data.Finset.Dedup

/-! Change tracking of an edge node: the snapshot that the mutators keep and the flag that `is_changed` resets. -/
namespace Soar.Dispatcher
open Soar.Library

/-- `remove_task`, which takes away the first occurrence. -/
def EdgeNode.removeTask (node : EdgeNode) (task : Task) : EdgeNode :=
  if task ∈ node.keepTasklist.tasklist then
    { node.keepTasklist with updateFlag := true, tasklist := node.keepTasklist.tasklist.erase task }
  else node.keepTasklist

def EdgeNode.clearTasklist (node : EdgeNode) : EdgeNode :=
  { node with tasklist := [] }

def EdgeNode.updateTasklist (node : EdgeNode) (tasklist : List Task) : EdgeNode :=
  { node with tasklist := tasklist }

/-- `set([t.task_id for t in tasks])`. -/
def taskIds (tasks : List Task) : Finset Int :=
  (tasks.map (·.taskId)).toFinset

def EdgeNode.isChanged (node : EdgeNode) : Bool × EdgeNode :=
  if node.updateFlag then
    (!decide (taskIds node.tasklist = taskIds node.lasttasklist), { node with updateFlag := false })
  else (false, node)

@[simp] theorem EdgeNode.isChanged_tasklist (node : EdgeNode) : node.isChanged.2.tasklist = node.tasklist := by
  unfold EdgeNode.isChanged
  split_ifs <;> rfl

@[simp] theorem EdgeNode.isChanged_updateFlag (node : EdgeNode) : node.isChanged.2.updateFlag = false := by
  unfold EdgeNode.isChanged
  split_ifs with hflag
  · rfl
  · exact Bool.eq_false_iff.mpr hflag

inductive NodeCall where
  | insertTask (task : Task)
  | removeTask (task : Task)
  | clearTasklist
  | updateTasklist (tasklist : List Task)
  | isChanged

/-- A node beside the task ids it held at the last call of `is_changed`, or when it was made. -/
structure TrackedNode where
  node : EdgeNode
  seen : Finset Int

namespace TrackedNode

/-- A new node, for which the ids it starts with count as seen. -/
def init (id : Int) (sensordict : List (Int × List (Int × Sensor))) (tasklist : List Task) : TrackedNode :=
  ⟨{ id := id, sensordict := sensordict, tasklist := tasklist }, taskIds tasklist⟩

def step (w : TrackedNode) : NodeCall → TrackedNode
  | .insertTask task => { w with node := w.node.insertTask task }
  | .removeTask task => { w with node := w.node.removeTask task }
  | .clearTasklist => { w with node := w.node.clearTasklist }
  | .updateTasklist tasklist => { w with node := w.node.updateTasklist tasklist }
  | .isChanged => ⟨w.node.isChanged.2, taskIds w.node.tasklist⟩

/-- A call of `is_changed` tells whether the ids differ from those seen last. -/
def Right (w : TrackedNode) : Prop :=
  w.node.isChanged.1 = true ↔ taskIds w.node.tasklist ≠ w.seen

/-- The list is cleared or replaced only after another change, or without a change of the ids. -/
def Tracked (w : TrackedNode) : NodeCall → Prop
  | .clearTasklist => w.node.updateFlag = true ∨ w.node.tasklist = []
  | .updateTasklist tasklist => w.node.updateFlag = true ∨ taskIds tasklist = taskIds w.node.tasklist
  | _ => True

/-- The ids seen last are in the snapshot after a change, and in the list before one. -/
def Kept (w : TrackedNode) : Prop :=
  taskIds (if w.node.updateFlag then w.node.lasttasklist else w.node.tasklist) = w.seen

theorem kept_init (id : Int) (sensordict : List (Int × List (Int × Sensor))) (tasklist : List Task) :
    (init id sensordict tasklist).Kept := rfl

theorem Kept.right {w : TrackedNode} (h : w.Kept) : w.Right := by
  unfold Right EdgeNode.isChanged
  split_ifs with hflag
  · rw [Kept, if_pos hflag] at h
    simp [h]
  · rw [Kept, if_neg hflag] at h
    simp [h]

/-- After the snapshot is kept, it holds the ids seen last. -/
theorem Kept.keepTasklist {w : TrackedNode} (h : w.Kept) : taskIds w.node.keepTasklist.lasttasklist = w.seen := by
  unfold EdgeNode.keepTasklist
  split_ifs with hflag
  · rwa [Kept, if_pos hflag] at h
  · rwa [Kept, if_neg hflag] at h

private theorem kept_of_keepTasklist {w : TrackedNode} (h : w.Kept) {node : EdgeNode}
    (hlast : node.lasttasklist = w.node.keepTasklist.lasttasklist)
    (hlist : node.updateFlag = true ∨ node = w.node.keepTasklist) : Kept { w with node := node } := by
  by_cases hflag : node.updateFlag
  · rw [Kept, if_pos hflag, hlast]
    exact h.keepTasklist
  · obtain hlist | rfl := hlist
    · exact absurd hlist hflag
    · rw [Kept, if_neg hflag, EdgeNode.keepTasklist_tasklist]
      unfold EdgeNode.keepTasklist at hflag
      split_ifs at hflag with hnode
      · exact absurd hnode hflag
      · rwa [Kept, if_neg hnode] at h

private theorem kept_updateTasklist {w : TrackedNode} (h : w.Kept) {tasklist : List Task}
    (ht : w.node.updateFlag = true ∨ taskIds tasklist = taskIds w.node.tasklist) :
    Kept { w with node := w.node.updateTasklist tasklist } := by
  unfold Kept EdgeNode.updateTasklist
  by_cases hflag : w.node.updateFlag
  · rw [Kept, if_pos hflag] at h
    rwa [if_pos hflag]
  · rw [Kept, if_neg hflag] at h
    rw [if_neg hflag, ht.resolve_left hflag]
    exact h

private theorem tracked_updateTasklist {w : TrackedNode} (h : w.Kept) {tasklist : List Task}
    (hr : Right { w with node := w.node.updateTasklist tasklist }) :
    w.node.updateFlag = true ∨ taskIds tasklist = taskIds w.node.tasklist := by
  by_cases hflag : w.node.updateFlag
  · exact Or.inl hflag
  · rw [Kept, if_neg hflag] at h
    have hno : (w.node.updateTasklist tasklist).isChanged.1 = false := by
      rw [EdgeNode.isChanged, EdgeNode.updateTasklist, if_neg hflag]
    rw [Right, hno] at hr
    exact Or.inr ((not_not.mp fun hne => Bool.false_ne_true (hr.mpr hne)).trans h.symm)

theorem taskIds_nil_eq_iff (tasks : List Task) : taskIds [] = taskIds tasks ↔ tasks = [] := by
  constructor
  · intro h
    cases tasks with
    | nil => rfl
    | cons task tasks =>
      have hmem : task.taskId ∈ taskIds [] := by
        rw [h]
        simp [taskIds]
      simp [taskIds] at hmem
  · rintro rfl
    rfl

/-- What every tracked call keeps. -/
theorem Kept.step {w : TrackedNode} (h : w.Kept) {call : NodeCall} (ht : w.Tracked call) : (w.step call).Kept := by
  cases call with
  | insertTask task =>
    apply kept_of_keepTasklist h
    · unfold EdgeNode.insertTask
      split_ifs <;> rfl
    · unfold EdgeNode.insertTask
      split_ifs
      · exact Or.inr rfl
      · exact Or.inl rfl
  | removeTask task =>
    apply kept_of_keepTasklist h
    · unfold EdgeNode.removeTask
      split_ifs <;> rfl
    · unfold EdgeNode.removeTask
      split_ifs
      · exact Or.inl rfl
      · exact Or.inr rfl
  | clearTasklist => exact kept_updateTasklist h (ht.imp_right (taskIds_nil_eq_iff _).mpr)
  | updateTasklist tasklist => exact kept_updateTasklist h ht
  | isChanged =>
    rw [Kept, TrackedNode.step, if_neg (by rw [EdgeNode.isChanged_updateFlag]; exact Bool.false_ne_true),
      EdgeNode.isChanged_tasklist]

/-- A call that leaves the answer right was tracked. -/
theorem Kept.tracked {w : TrackedNode} (h : w.Kept) {call : NodeCall} (hr : (w.step call).Right) :
    w.Tracked call := by
  cases call with
  | clearTasklist => exact (tracked_updateTasklist h hr).imp_right (taskIds_nil_eq_iff _).mp
  | updateTasklist tasklist => exact tracked_updateTasklist h hr
  | _ => trivial

end TrackedNode

/-- `is_changed` would answer right after each call of a run exactly when every `clear_tasklist` and
`update_tasklist` of the run either follows another change or leaves the ids as they are. -/
theorem isChanged_right_iff (id : Int) (sensordict : List (Int × List (Int × Sensor))) (tasklist : List Task)
    (calls : List NodeCall) :
    AlongRun TrackedNode.step TrackedNode.Tracked (.init id sensordict tasklist) calls ↔
      ∀ n ≤ calls.length, ((calls.take n).foldl TrackedNode.step (.init id sensordict tasklist)).Right :=
  AlongRun.iff_forall_take_of_inv (fun _ _ h ht => h.step ht) (fun _ h => h.right) (fun _ _ h hr => h.tracked hr)
    (TrackedNode.kept_init id sensordict tasklist)

private def placed : Task where
  taskId := 1
  modelId := "yolo"
  dataSource := 10101
  deadline := 100
  nodeId := 1
  sensorId := 1
  missBound := 1 / 2
  optBatch := 1
  optTime := [20]
  fps := 10
  priority := 1

/-- A task is placed and reported, then the list is cleared: the next call answers that nothing changed. -/
theorem not_right_clearTasklist :
    ¬∀ (tasklist : List Task) (calls : List NodeCall) (n : Nat), calls[n]? = some .isChanged →
      ((calls.take n).foldl TrackedNode.step (.init 1 [] tasklist)).Right := by
  intro h
  have hlast := h [] [.insertTask placed, .isChanged, .clearTasklist, .isChanged] 3 rfl
  revert hlast
  unfold TrackedNode.Right
  decide

end Soar.Dispatcher
