import Soar.Node.SensorMonitorRuns
import Soar.Node.SensorSettings

/-! Where one monitor waits for the other, no file is overtaken, and the turns do to the directory what
`write2file` and `run` do. -/
namespace Soar.Node
open Soar.Computing Soar.Library

/-- A deployment, or a run of the monitor over the sensors. -/
def Directory.change (dir : Directory) : Change → Directory
  | .deploy received => (write2file received dir).2
  | .restart sensors => run sensors dir

def TaskStage.isIdle : TaskStage → Bool
  | .idle => true
  | _ => false

theorem TaskStage.isIdle_iff (task : TaskStage) : task.isIdle = true ↔ task = .idle := by
  cases task with
  | idle => exact iff_of_true rfl rfl
  | _ => exact iff_of_false Bool.false_ne_true (by rintro ⟨⟩)

instance (task : TaskStage) : Decidable (task = .idle) := decidable_of_iff _ task.isIdle_iff

/-- The sensors that `run` has yet to unlock. -/
def MonitorStage.rest : MonitorStage → List Nat
  | .idle => []
  | .next rest _ => rest
  | .locked key rest _ => key :: rest
  | .killed key rest _ => key :: rest
  | .start key rest => key :: rest
  | .rename key rest _ => key :: rest
  | .restart _ => []

namespace NodeState

/-- One monitor takes turns only while the other is idle, and `run` lists only these sensors. -/
def Serial (sensors : List Nat) (w : NodeState) : Turn → Prop
  | .monitor filenames => w.task = .idle ∧ ∀ key ∈ filenames, key ∈ sensors
  | .receive _ => w.monitor = .idle
  | .task => w.monitor = .idle
  | .read _ _ => True

instance (sensors : List Nat) (w : NodeState) : ∀ turn, Decidable (w.Serial sensors turn)
  | .monitor _ => instDecidableAnd
  | .receive _ => inferInstanceAs (Decidable (w.monitor = .idle))
  | .task => inferInstanceAs (Decidable (w.monitor = .idle))
  | .read _ _ => instDecidableTrue

/-- What a turn starts. -/
def starts (w : NodeState) : Turn → List Change
  | .monitor filenames =>
    match w.monitor with
    | .idle => [.restart filenames]
    | _ => []
  | .receive received =>
    match w.task with
    | .idle => [.deploy received]
    | _ => []
  | .task => []
  | .read _ _ => []

/-- The directory after the second loop of `write2file` and `rm`. -/
def afterKeys (entries : List (Nat × List Nat)) (dir : Directory) : Directory :=
  match writeKeys entries dir with
  | (.raised, dir) => dir
  | (.returned, dir) => { dir with json := [] }

/-- The directory after what the first loop of `write2file` leaves to do. -/
def afterMarks (entries : List (Nat × List Nat)) : Option Bool × Directory → Directory
  | (none, dir) => dir
  | (some false, dir) => dir
  | (some true, dir) => afterKeys entries dir

/-- The directory when what a monitor is at has come to its end. -/
def atEnd (task : TaskStage) (monitor : MonitorStage) (dir : Directory) : Directory :=
  match task with
  | .idle => Node.run monitor.rest dir
  | .marking rest newTaskFlag entries => afterMarks entries (markChanged rest newTaskFlag dir)
  | .renaming rest => afterKeys rest dir
  | .writing key config rest => afterKeys rest (dir.writeConfig key config)

def settled (w : NodeState) : Directory := atEnd w.task w.monitor w.dir

/-- What holds after every turn where one monitor waits for the other. -/
structure SerialInv (sensors : List Nat) (w : NodeState) : Prop where
  idle : w.task = .idle ∨ w.monitor = .idle
  rest : ∀ key ∈ w.monitor.rest, key ∈ sensors
  handled : ∀ key, w.monitor.handled = some key → w.dir.lock key = true
  writing : ∀ key config rest, w.task = .writing key config rest →
    w.dir.lock key = true ∧ (evalList config.queueKey).isSome
  queue : ∀ key ∈ sensors, (w.queue key).isSome
  overtaken : ∀ key, w.overtaken key = false

variable {shell : Shell} {nodename : Nat → List Char} {sensors : List Nat} {w w' : NodeState}

theorem write2file_eq (received : Deployment) (dir : Directory) :
    (write2file received dir).2 = afterMarks received.entries (markChanged received.entries false dir) := by
  unfold write2file afterMarks afterKeys
  rcases markChanged received.entries false dir with ⟨_ | _ | _, dir'⟩
  · rfl
  · rfl
  · dsimp only
    rcases writeKeys received.entries dir' with ⟨_ | _, dir''⟩ <;> rfl

theorem settled_eq {task : TaskStage} (htask : w.task = task) : w.settled = atEnd task w.monitor w.dir := by
  rw [settled, htask]

theorem settled_of_task (w : NodeState) (htask : w.task = .idle) : w.settled = Node.run w.monitor.rest w.dir := by
  rw [settled_eq htask]
  rfl

theorem settled_of_idle (htask : w.task = .idle) (hmonitor : w.monitor.rest = []) : w.settled = w.dir := by
  rw [settled_of_task w htask, hmonitor]
  rfl

/-- What `write2file` leaves to do is less after a turn, and ends alike. -/
theorem settled_taskStep (hidle : w.task = .idle ∨ w.monitor = .idle) : w.taskStep.settled = w.settled := by
  obtain htask | hmonitor := hidle
  · have hsame : w.taskStep = w := by
      unfold taskStep
      rw [htask]
    rw [hsame]
  have hrest : w.monitor.rest = [] := by rw [hmonitor]; rfl
  have hdone : ∀ dir, settled { w with dir := dir, task := .idle } = dir := fun dir => settled_of_idle rfl hrest
  unfold taskStep
  split
  · rfl
  · next htask => 
    rw [hdone, settled_eq htask]
    rfl
  · next entries htask =>
    rw [settled_eq htask]
    rfl
  · next key queue rest newTaskFlag entries htask =>
    rw [settled_eq htask]
    cases hini : w.dir.ini key with
    | none =>
      rw [atEnd, markChanged, hini]
      exact hdone w.dir
    | some config =>
      rw [atEnd, markChanged, hini]
      dsimp only
      split_ifs <;> rfl
  · next htask =>
    rw [hdone, settled_eq htask]
    rfl
  · next key queue rest htask =>
    rw [settled_eq htask]
    cases hunlock : w.dir.renameUnlock key with
    | none =>
      rw [atEnd, afterKeys, writeKeys, hunlock]
      exact hdone w.dir
    | some dir =>
      rw [atEnd, afterKeys, writeKeys, hunlock]
      dsimp only
      cases hini : dir.ini key with
      | none => exact hdone dir
      | some config => rfl
  · next key config rest htask =>
    rw [settled_eq htask]
    rfl

theorem SerialInv.of_locked (h : w.SerialInv sensors) {key : Nat} (hhandled : w.monitor.handled = some key)
    (rest : List Nat) : Node.run (key :: rest) w.dir = Node.run rest (w.unlock key).dir := by
  rw [Node.run, if_pos (h.handled key hhandled)]
  rfl

/-- What the monitor leaves to do is less after a turn, and ends alike; a listing starts it. -/
theorem SerialInv.settled_monitorStep (h : w.SerialInv sensors) (htask : w.task = .idle) (filenames : List Nat) :
    (w.monitorStep shell nodename filenames).settled =
      (w.starts (.monitor filenames)).foldl Directory.change w.settled := by
  rw [settled_of_task w htask, starts]
  unfold monitorStep
  split
  · next hstage =>
    rw [hstage]
    exact settled_of_task _ htask
  · next hstage =>
    rw [hstage]
    exact settled_of_task _ htask
  · next hstage =>
    rw [hstage]
    split <;> exact settled_of_task _ htask
  · next key rest running hstage =>
    rw [hstage]
    split_ifs with hlock
    · exact settled_of_task _ htask
    · refine (settled_of_task { w with monitor := .next rest running } htask).trans ?_
      change Node.run rest w.dir = Node.run (key :: rest) w.dir
      rw [Node.run, if_neg hlock]
  · next key rest running hstage =>
    rw [hstage]
    exact settled_of_task _ htask
  · next key rest running hstage =>
    rw [hstage]
    have hqueue := h.queue key (h.rest key (by rw [hstage]; exact List.mem_cons_self ..))
    obtain ⟨queue, hqueue⟩ := Option.isSome_iff_exists.mp hqueue
    rw [NodeState.queue] at hqueue
    rw [hqueue]
    dsimp only
    split_ifs <;> exact settled_of_task _ htask
  · next key rest hstage =>
    rw [hstage]
    exact settled_of_task _ htask
  · next key rest running hstage =>
    have hlock : w.dir.lock key = true := h.handled key (by rw [hstage]; rfl)
    rw [if_pos hlock, hstage]
    refine (settled_of_task { w.unlock key with monitor := .next rest running } htask).trans ?_
    exact (h.of_locked (by rw [hstage]; rfl) rest).symm
  · next hstage =>
    rw [hstage]
    exact settled_of_task _ htask
  · next hstage =>
    rw [hstage]
    exact settled_of_task _ htask

section Steps

/-- What a turn of the monitor leaves as it is. -/
theorem monitorStep_keeps (w : NodeState) (filenames : List Nat) :
    (w.monitorStep shell nodename filenames).task = w.task ∧
      (w.monitorStep shell nodename filenames).dir.ini = w.dir.ini ∧
      ∀ key, w.overtaken key = false → (w.monitorStep shell nodename filenames).overtaken key = false := by
  unfold monitorStep
  split
  iterate 2 exact ⟨rfl, rfl, fun _ => id⟩
  · split <;> exact ⟨rfl, rfl, fun _ => id⟩
  iterate 2 exact ⟨rfl, rfl, fun _ => id⟩
  · next key rest running hstage =>
    split
    · exact ⟨rfl, rfl, fun _ => id⟩
    · refine ⟨rfl, rfl, fun key' hfalse => ?_⟩
      change Function.update w.overtaken key false key' = false
      rw [Function.update_apply]
      split_ifs
      · rfl
      · exact hfalse
  · exact ⟨rfl, rfl, fun _ => id⟩
  · split_ifs <;> exact ⟨rfl, rfl, fun _ => id⟩
  iterate 2 exact ⟨rfl, rfl, fun _ => id⟩

theorem mem_rest_monitorStep {filenames : List Nat} {key : Nat}
    (h : key ∈ (w.monitorStep shell nodename filenames).monitor.rest) : key ∈ w.monitor.rest ∨ key ∈ filenames := by
  unfold monitorStep at h
  split at h
  · exact .inr h
  · exact absurd h List.not_mem_nil
  · split at h <;> exact absurd h List.not_mem_nil
  · next hstage =>
    rw [hstage]
    dsimp only at h
    split_ifs at h
    · exact .inl h
    · exact .inl (List.mem_cons_of_mem _ h)
  · next hstage =>
    rw [hstage]
    exact .inl h
  · next hstage =>
    rw [hstage]
    split at h
    · exact absurd h List.not_mem_nil
    · dsimp only at h
      split_ifs at h <;> exact .inl h
  · next hstage =>
    rw [hstage]
    exact .inl h
  · next hstage =>
    rw [hstage]
    split_ifs at h
    · exact .inl (List.mem_cons_of_mem _ h)
    · exact absurd h List.not_mem_nil
  iterate 2 exact absurd h List.not_mem_nil

theorem SerialInv.handled_monitorStep (h : w.SerialInv sensors) {filenames : List Nat} {key : Nat}
    (hhandled : (w.monitorStep shell nodename filenames).monitor.handled = some key) :
    (w.monitorStep shell nodename filenames).dir.lock key = true := by
  unfold NodeState.monitorStep at hhandled ⊢
  split at hhandled
  iterate 2 cases hhandled
  · split at hhandled <;> cases hhandled
  · dsimp only at hhandled
    split_ifs at hhandled with hlock
    · cases hhandled
      exact hlock
    · cases hhandled
  · next hstage => exact h.handled key (by rw [hstage]; exact hhandled)
  · next hstage =>
    have hkey : w.monitor.handled = some key := by
      rw [hstage]
      split at hhandled
      · cases hhandled
      · dsimp only at hhandled
        split_ifs at hhandled <;> exact hhandled
    split
    · exact h.handled key hkey
    · exact h.handled key hkey
  · next hstage => exact h.handled key (by rw [hstage]; exact hhandled)
  · split_ifs at hhandled <;> cases hhandled
  iterate 2 cases hhandled

/-- A step of the monitor keeps the invariant where no deployment is under way. -/
theorem SerialInv.monitorStep (h : w.SerialInv sensors) (htask : w.task = .idle) {filenames : List Nat}
    (hfilenames : ∀ key ∈ filenames, key ∈ sensors) :
    (w.monitorStep shell nodename filenames).SerialInv sensors := by
  obtain ⟨hsame, hini, hovertaken⟩ := @monitorStep_keeps shell nodename w filenames
  constructor
  · exact .inl (hsame.trans htask)
  · intro key hkey
    exact (mem_rest_monitorStep hkey).elim (h.rest key) (hfilenames key)
  · exact fun key => h.handled_monitorStep
  · intro key config rest hwriting
    rw [hsame, htask] at hwriting
    cases hwriting
  · intro key hkey
    rw [NodeState.queue, hini]
    exact h.queue key hkey
  · exact fun key => hovertaken key (h.overtaken key)

/-- While the monitor is idle, three parts are left. -/
theorem SerialInv.of_idle (hmonitor : w.monitor = .idle)
    (hwriting : ∀ key config rest, w.task = .writing key config rest →
      w.dir.lock key = true ∧ (evalList config.queueKey).isSome)
    (hqueue : ∀ key ∈ sensors, (w.queue key).isSome) (hovertaken : ∀ key, w.overtaken key = false) :
    w.SerialInv sensors where
  idle := .inr hmonitor
  rest key hkey := by
    rw [hmonitor] at hkey
    exact absurd hkey List.not_mem_nil
  handled key hhandled := by
    rw [hmonitor] at hhandled
    cases hhandled
  writing := hwriting
  queue := hqueue
  overtaken := hovertaken

/-- A step of a deployment keeps the invariant where the monitor rests. -/
theorem SerialInv.taskStep (h : w.SerialInv sensors) (hmonitor : w.monitor = .idle) :
    w.taskStep.SerialInv sensors := by
  -- a turn that writes no file, and comes to no file to be written
  have hstays : ∀ dir task, dir.ini = w.dir.ini → (∀ key config rest, task ≠ .writing key config rest) →
      ({ w with dir := dir, task := task } : NodeState).SerialInv sensors := fun dir task hini htask =>
    .of_idle hmonitor (fun key config rest heq => absurd heq (htask key config rest)) (fun key hkey => by
      change ((dir.ini key).bind _).isSome
      rw [hini]
      exact h.queue key hkey) h.overtaken
  unfold NodeState.taskStep
  split
  · exact h
  · exact hstays _ _ rfl (by rintro _ _ _ ⟨⟩)
  · exact hstays _ _ rfl (by rintro _ _ _ ⟨⟩)
  · split
    · exact hstays _ _ rfl (by rintro _ _ _ ⟨⟩)
    · split_ifs
      · exact hstays _ _ rfl (by rintro _ _ _ ⟨⟩)
      · exact hstays _ _ (Directory.createUnlock_ini _ _) (by rintro _ _ _ ⟨⟩)
  · exact hstays _ _ rfl (by rintro _ _ _ ⟨⟩)
  · next key queue rest htask =>
    split
    · exact hstays _ _ rfl (by rintro _ _ _ ⟨⟩)
    · next dir hunlock =>
      unfold Directory.renameUnlock at hunlock
      split_ifs at hunlock
      obtain rfl := Option.some.inj hunlock
      split
      · exact hstays _ _ rfl (by rintro _ _ _ ⟨⟩)
      · refine .of_idle hmonitor ?_ h.queue h.overtaken
        rintro _ _ _ ⟨⟩
        refine ⟨Function.update_self .., ?_⟩
        dsimp only
        rw [evalList_strList]
        rfl
  · next key config rest htask =>
    obtain ⟨hlock, hconfig⟩ := h.writing key config rest htask
    refine .of_idle hmonitor (by rintro _ _ _ ⟨⟩) (fun key' hkey' => ?_) fun key' => ?_
    · change ((Function.update w.dir.ini key (some config) key').bind _).isSome
      rw [Function.update_apply]
      split_ifs
      · exact hconfig
      · exact h.queue key' hkey'
    · dsimp only
      rw [h.overtaken, hlock, hmonitor, Function.update_apply]
      split_ifs
      · rfl
      · exact h.overtaken key'

/-- A turn keeps this, and does to the settled directory what it starts. -/
theorem SerialInv.step (h : w.SerialInv sensors) {turn : Turn} (hserial : w.Serial sensors turn) :
    (w.step shell nodename turn).SerialInv sensors := by
  cases turn with
  | monitor filenames => exact h.monitorStep hserial.1 hserial.2
  | receive received =>
    rw [NodeState.step]
    split
    · exact .of_idle hserial (by rintro _ _ _ ⟨⟩) h.queue h.overtaken
    · exact h
  | task => exact h.taskStep hserial
  | read i key => exact ⟨h.idle, h.rest, h.handled, h.writing, h.queue, h.overtaken⟩

/-- A step changes what the files will come to by the function that it starts, if it starts one. -/
theorem SerialInv.settled_step (h : w.SerialInv sensors) {turn : Turn} (hserial : w.Serial sensors turn) :
    (w.step shell nodename turn).settled = (w.starts turn).foldl Directory.change w.settled := by
  cases turn with
  | monitor filenames => exact h.settled_monitorStep hserial.1 filenames
  | receive received =>
    have hmonitor : w.monitor = .idle := hserial
    rw [NodeState.step, starts]
    cases htask : w.task with
    | idle =>
      rw [settled_of_idle htask (by rw [hmonitor]; rfl)]
      exact (write2file_eq received w.dir).symm
    | _ => rfl
  | task => exact settled_taskStep h.idle
  | read i key => rfl

end Steps

/-- Where one monitor waits for the other: when both have come to their end, the directory is what the deployments and
the restarts make of it one after the other, no file is overtaken, and every unlocked sensor runs as its file says. -/
theorem serial_run (h : w.Initial) (htask : w.task = .idle) (hovertaken : ∀ key, w.overtaken key = false)
    (hqueue : ∀ key ∈ sensors, (w.queue key).isSome) {turns : List Turn}
    (hserial : AlongRun (step shell nodename) (Serial sensors) w turns)
    (hend : (w.run shell nodename turns).task = .idle ∧ (w.run shell nodename turns).monitor = .idle) :
    (w.run shell nodename turns).dir =
        (abstractTurns (step shell nodename) starts w turns).foldl Directory.change w.dir ∧
      (∀ key, (w.run shell nodename turns).overtaken key = false) ∧
      ∀ key, (w.run shell nodename turns).dir.lock key = false → (w.run shell nodename turns).Current nodename key := by
  have hinv : w.SerialInv sensors := .of_idle h.monitor (by rw [htask]; rintro _ _ _ ⟨⟩) hqueue hovertaken
  have hrest : ∀ {w : NodeState}, w.monitor = .idle → w.monitor.rest = [] := fun hmonitor => by rw [hmonitor]; rfl
  have hlast : (w.run shell nodename turns).SerialInv sensors := hserial.inv (fun _ _ hw ht => hw.step ht) hinv
  refine ⟨?_, hlast.overtaken, fun key hlock => ?_⟩
  · have hsettled := hserial.simulates (fun _ _ hw ht => hw.step ht) (fun _ _ hw ht => hw.settled_step ht) hinv
    rw [settled_of_idle htask (hrest h.monitor)] at hsettled
    exact (settled_of_idle hend.1 (hrest hend.2)).symm.trans hsettled
  · exact (h.inv.run turns).current key hlock (by rw [hend.2]; exact (Option.some_ne_none key).symm)
      (hlast.overtaken key)

/-- The turns after the deployment come to the end of both monitors. -/
def allTurns : List Turn := deployTurns ++ [.monitor [1], .read 0 1, .monitor [1], .monitor [1]]

/-- A deployment and then a run of the monitor, to their ends. -/
theorem serial_run_oneSensor :
    (oneSensor.run oneProcess (fun _ => []) allTurns).overtaken 1 = false ∧
      (oneSensor.run oneProcess (fun _ => []) allTurns).dir.lock 1 = false ∧
      (oneSensor.run oneProcess (fun _ => []) allTurns).Current (fun _ => []) 1 := by
  have h := @serial_run oneProcess (fun _ => []) [1] oneSensor oneSensor_initial rfl (fun _ => rfl) (by decide)
    allTurns (by decide) ⟨rfl, rfl⟩
  exact ⟨h.2.1 1, by decide, h.2.2 1 (by decide)⟩

end NodeState

end Soar.Node
