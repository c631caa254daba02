import Soar.Computing.SharedMemory
import Soar.Dispatcher.Allocator
import Soar.Library.KeepLatest

/-! The servers of `master_server.py` and their queues of two entries. The queues are between processes, so an
entry is a copy of what was put. -/
namespace Soar.Dispatcher
open Soar.Computing Soar.Library Soar.Library.KeepLatest

/-- The bandwidth monitor: the reports by node, and the threads that have entered theirs. -/
structure ReceiveServer (ι : Type) where
  sharedDict : List (String × Bytes) := []
  recorded : ι → Bool := fun _ => false
  mailbox : Mailbox ι (List (String × Bytes)) := {}

/-- A step of a `receive_handler`, or the `get` of `update_comm_time`. -/
inductive ReceiveTurn (ι : Type)
  | handle (i : ι)
  | updateCommTime

/-- What a `send_handler` does next. -/
inductive SendPoint
  | empty
  | get
  | look
  | finished
deriving DecidableEq

/-- The deployment server, with what its threads have sent. -/
structure DeployServer (ι κ : Type) where
  sharedDict : Deployment := []
  mailbox : Mailbox ι Deployment := {}
  point : κ → SendPoint := fun _ => .empty
  sent : κ → Option (List (Int × List Int)) := fun _ => none

/-- A step of a call of `deploy_tasks`, or of a `send_handler`. -/
inductive DeployTurn (ι κ : Type)
  | deployTasks (i : ι)
  | handle (j : κ)

variable {ι κ : Type} [DecidableEq ι] [DecidableEq κ]

namespace ReceiveServer

/-- `receive_handler.handle`, once it has received its data: the report, then `put`, `qsize` and `get`. -/
def step (hostname : ι → String) (data : ι → Bytes) (s : ReceiveServer ι) : ReceiveTurn ι → ReceiveServer ι
  | .handle i =>
    if s.recorded i then { s with mailbox := s.mailbox.step 2 (.producer i s.sharedDict) }
    else
      { s with
        sharedDict := updateKey (data i) (fun _ => data i) (hostname i) s.sharedDict
        recorded := Function.update s.recorded i true }
  | .updateCommTime => { s with mailbox := s.mailbox.step 2 .take }

/-- What a step does to the queue. -/
def turn (s : ReceiveServer ι) : ReceiveTurn ι → Option (Turn ι (List (String × Bytes)))
  | .handle i => if s.recorded i then some (.producer i s.sharedDict) else none
  | .updateCommTime => some .take

/-- The get of a handler does not find one entry only. -/
def Several (s : ReceiveServer ι) (t : ReceiveTurn ι) : Prop := ∀ t' ∈ s.turn t, s.mailbox.Several t'

theorem mailbox_step (hostname : ι → String) (data : ι → Bytes) (s : ReceiveServer ι) (t : ReceiveTurn ι) :
    (s.step hostname data t).mailbox = (s.turn t).elim s.mailbox (s.mailbox.step 2) := by
  cases t with
  | handle i =>
    unfold step turn
    dsimp only
    split_ifs <;> rfl
  | updateCommTime => rfl

end ReceiveServer

namespace DeployServer

/-- `deploy_tasks` with the dictionary `dict i`, or `send_handler.handle` for the node `nodename j`. -/
def step (dict : ι → Deployment) (nodename : κ → String) (s : DeployServer ι κ) : DeployTurn ι κ → DeployServer ι κ
  | .deployTasks i => { s with mailbox := s.mailbox.step 2 (.producer i (dict i)) }
  | .handle j =>
    match s.point j with
    | .empty => { s with point := Function.update s.point j (if s.mailbox.queue = [] then .look else .get) }
    | .get =>
      match s.mailbox.queue with
      | [] => s
      | entry :: _ =>
        { s with
          sharedDict := entry.2
          mailbox := s.mailbox.step 2 .take
          point := Function.update s.point j .look }
    | .look =>
      match s.sharedDict.lookup (nodename j) with
      | some deployedTask =>
        { s with sent := Function.update s.sent j (some deployedTask), point := Function.update s.point j .finished }
      -- `time.sleep(0.01)`, and the next round of the loop
      | none => { s with point := Function.update s.point j .empty }
    | .finished => s

/-- What a step does to the queue. -/
def turn (dict : ι → Deployment) (s : DeployServer ι κ) : DeployTurn ι κ → Option (Turn ι Deployment)
  | .deployTasks i => some (.producer i (dict i))
  | .handle j => if s.point j = .get then some .take else none

/-- The get of `deploy_tasks` does not find one entry only. -/
def Several (dict : ι → Deployment) (s : DeployServer ι κ) (t : DeployTurn ι κ) : Prop :=
  ∀ t' ∈ s.turn dict t, s.mailbox.Several t'

theorem mailbox_step (dict : ι → Deployment) (nodename : κ → String) (s : DeployServer ι κ) (t : DeployTurn ι κ) :
    (s.step dict nodename t).mailbox = (s.turn dict t).elim s.mailbox (s.mailbox.step 2) := by
  cases t with
  | deployTasks i => rfl
  | handle j =>
    cases hp : s.point j with
    | empty => simp [step, turn, hp]
    | get =>
      cases hq : s.mailbox.queue with
      | nil => simp [step, turn, hp, hq, Mailbox.step]
      | cons entry queue => simp [step, turn, hp, hq]
    | look =>
      simp only [step, turn, hp]
      cases s.sharedDict.lookup (nodename j) <;> rfl
    | finished => simp [step, turn, hp]

end DeployServer

/-- The queues keep the latest value in all runs in which no get of a handler, or of `deploy_tasks`, finds one
entry only, and in no others. -/
theorem keeps_latest_iff (hostname : ι → String) (data : ι → Bytes) (dict : ι → Deployment) (nodename : κ → String) :
    (∀ turns : List (ReceiveTurn ι),
      AlongRun (ReceiveServer.step hostname data) ReceiveServer.Several {} turns ↔
        ∀ n ≤ turns.length, ((turns.take n).foldl (ReceiveServer.step hostname data) {}).mailbox.KeepsLatest) ∧
      ∀ turns : List (DeployTurn ι κ),
        AlongRun (DeployServer.step dict nodename) (DeployServer.Several dict) {} turns ↔
          ∀ n ≤ turns.length, ((turns.take n).foldl (DeployServer.step dict nodename) {}).mailbox.KeepsLatest :=
  ⟨keepsLatest_run_iff ReceiveServer.mailbox ReceiveServer.turn (ReceiveServer.mailbox_step hostname data)
      Mailbox.ordered_empty Mailbox.good_empty,
    keepsLatest_run_iff DeployServer.mailbox (DeployServer.turn dict) (DeployServer.mailbox_step dict nodename)
      Mailbox.ordered_empty Mailbox.good_empty⟩

/-- Two nodes report together: both handlers read the size 2, and both get. -/
def reportTogether : List (ReceiveTurn Bool) :=
  [.handle false, .handle true, .handle false, .handle true, .handle false, .handle true, .handle false, .handle true]

/-- `deploy_tasks` puts and reads the size 2, a `send_handler` gets, then `deploy_tasks` gets. -/
def deployTwice : List (DeployTurn Bool Unit) :=
  [.deployTasks false, .deployTasks false, .deployTasks true, .deployTasks true, .handle (), .handle (),
      .deployTasks true]

def reported : ReceiveServer Bool :=
  reportTogether.foldl (ReceiveServer.step (fun i => if i then "testbed-02" else "testbed-01") fun _ => [1]) {}

def deployed : DeployServer Bool Unit :=
  deployTwice.foldl (DeployServer.step (fun i => [("testbed-01", [(10101, [if i then 10102 else 10101])])])
    fun _ => "testbed-01") {}

/-- The latest report is discarded, and the latest deployment. -/
theorem not_keeps_latest_together : ¬ reported.mailbox.KeepsLatest ∧ ¬ deployed.mailbox.KeepsLatest := by
  constructor
  · intro h
    obtain ⟨_, -, hqueue⟩ := h.latest ⟨false, by decide⟩ (by decide)
    have hempty : reported.mailbox.queue = [] := by decide
    rw [hempty] at hqueue
    cases hqueue
  · intro h
    obtain ⟨later, hmem, hlt⟩ := h.superseded (1, [("testbed-01", [(10101, [10102])])]) (by decide)
    have hempty : deployed.mailbox.queue = [] := by decide
    have htaken : deployed.mailbox.taken.map Prod.fst = [0] := by decide
    rw [hempty] at hmem
    have hfirst : later.1 ∈ [0] := htaken ▸ List.mem_map_of_mem (hmem.resolve_left List.not_mem_nil)
    rw [List.mem_singleton.mp hfirst] at hlt
    exact absurd hlt (by decide)

end Soar.Dispatcher
