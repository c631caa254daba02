import Soar.Node.DeployedApps
import Soar.Node.DeploymentTransfer

/-! Deployments in turn, each received over a stream, with a run of `ros2_monitor.py` after it. -/
namespace Soar.Node
open Soar.Computing Soar.Library

/-- A deployment on its way to the node. -/
structure Delivery (dumps : Deployment → Bytes) where
  deployment : Deployment
  arrival : Arrival (dumps deployment)

namespace Delivery

variable {dumps : Deployment → Bytes} (loads : Bytes → Option Deployment) (sensors : List Nat)

/-- In one piece, that the buffer of `recv_dict` holds. -/
def InOnePiece (d : Delivery dumps) : Prop := d.arrival.chunks.length ≤ 1 ∧ (dumps d.deployment).length ≤ 4096

/-- Its sensors are among those that `ros2_monitor.py` starts. -/
def Lists (d : Delivery dumps) : Prop := ∀ e ∈ d.deployment.entries, e.1 ∈ sensors

/-- The node receives it, and `ros2_monitor.py` starts the sensors again. -/
def step (dir : Directory) (d : Delivery dumps) : Directory :=
  run sensors (receiveAndWrite loads d.arrival.chunks dir).2

/-- `write2file` returns and has applied the deployment as a whole. `update_deployed_app` collects from the files its
tasks then, and those of the sensors that it does not list. -/
structure Taken (dir : Directory) (d : Delivery dumps) : Prop where
  returned : (receiveAndWrite loads d.arrival.chunks dir).1 = .returned
  atomic : Atomic dir d.deployment (receiveAndWrite loads d.arrival.chunks dir).2
  collected : ∀ filenames apps, (∀ key, ((step loads sensors dir d).ini key).isSome ↔ key ∈ filenames) →
    updateDeployedApp (step loads sensors dir d) filenames = some apps → ∀ taskId, taskId ∈ apps ↔
      (∃ e ∈ d.deployment.entries, taskId ∈ e.2) ∨
        ∃ key ∉ d.deployment.entries.map Prod.fst, dir.DeployedAt key taskId

end Delivery

variable {dir : Directory} {received : Deployment} {key : Nat}

/-- Each sensor has its ini file, and has been started since its last deployment. -/
def Started (sensors : List Nat) (dir : Directory) : Prop :=
  ∀ key ∈ sensors, (dir.ini key).isSome ∧ dir.unlock key = true ∧ dir.lock key = false

private theorem run_lock {sensors : List Nat} (h : dir.lock key = false ∨ key ∈ sensors) :
    (run sensors dir).lock key = false := by
  induction sensors generalizing dir with
  | nil => exact h.resolve_right List.not_mem_nil
  | cons key' sensors ih =>
    rw [run]
    apply ih
    by_cases heq : key = key'
    · left
      subst heq
      split_ifs with hlock
      · exact Function.update_self ..
      · exact Bool.not_eq_true _ ▸ hlock
    · refine h.imp (fun hfalse => ?_) fun hmem => (List.mem_cons.mp hmem).resolve_left heq
      split_ifs
      · dsimp only
        rw [Function.update_of_ne heq, hfalse]
      · exact hfalse

private theorem run_keeps {sensors : List Nat} (hini : (dir.ini key).isSome)
    (hmarker : dir.unlock key = true ∨ dir.lock key = true ∧ key ∈ sensors) :
    ((run sensors dir).ini key).isSome ∧ (run sensors dir).unlock key = true := by
  induction sensors generalizing dir with
  | nil => exact ⟨hini, hmarker.resolve_right fun h => List.not_mem_nil h.2⟩
  | cons key' sensors ih =>
    rw [run]
    split_ifs with hlock
    · refine ih hini ?_
      dsimp only
      by_cases heq : key = key'
      · exact .inl (heq ▸ Function.update_self ..)
      · rw [Function.update_of_ne heq, Function.update_of_ne heq]
        exact hmarker.imp_right fun h => ⟨h.1, (List.mem_cons.mp h.2).resolve_left heq⟩
    · refine ih hini (hmarker.imp_right fun h => ⟨h.1, (List.mem_cons.mp h.2).resolve_left ?_⟩)
      rintro rfl
      exact hlock h.1

section Started

variable {sensors : List Nat} (h : Started sensors dir) (hsensors : ∀ e ∈ received.entries, e.1 ∈ sensors)
include h hsensors

private theorem write2file_started : (write2file received dir).1 = .returned :=
  (write2file_returned_iff fun e he => (h e.1 (hsensors e he)).1).mpr
    (.inr fun e he => .inr (h e.1 (hsensors e he)).2.1)

private theorem atomic_started : Atomic dir received (write2file received dir).2 := by
  refine (write2file_atomic_iff received dir fun e he => (h e.1 (hsensors e he)).1).mpr (.inr ?_)
  rw [List.dropWhile_eq_nil_iff.mpr fun e he => decide_eq_true (.inr (h e.1 (hsensors e he)).2.1)]
  exact fun e he => absurd he List.not_mem_nil

-- the monitor finds a marker of every sensor, and leaves `.unlock`
private theorem started_run : Started sensors (run sensors (write2file received dir).2) := by
  intro key hkey
  suffices hkept : ((run sensors (write2file received dir).2).ini key).isSome ∧
      (run sensors (write2file received dir).2).unlock key = true from ⟨hkept.1, hkept.2, run_lock (.inr hkey)⟩
  have hini : ∀ e ∈ received.entries, (dir.ini e.1).isSome := fun e he => (h e.1 (hsensors e he)).1
  by_cases hmem : key ∈ received.entries.map Prod.fst
  · obtain ⟨e, he, rfl⟩ := List.mem_map.mp hmem
    rcases atomic_started h hsensors with happlied | ⟨-, hsame⟩
    · obtain ⟨hunchanged, hlock, -⟩ := happlied e he
      have hsome : (((write2file received dir).2.ini e.1).map Config.queueKey).isSome := by
        rw [hunchanged]
        rfl
      exact run_keeps (by simpa using hsome) (.inr ⟨hlock, hkey⟩)
    · rw [hsame]
      exact run_keeps (h e.1 hkey).1 (.inl (h e.1 hkey).2.1)
  · obtain ⟨hkeptIni, hkeptUnlock⟩ := write2file_other hini hmem
    refine run_keeps ?_ (.inl (hkeptUnlock (h key hkey).2.1))
    rw [hkeptIni]
    exact (h key hkey).1

end Started

namespace Delivery

variable {dumps : Deployment → Bytes} {loads : Bytes → Option Deployment} {sensors : List Nat} {d : Delivery dumps}

private theorem taken_of_started (hlossless : loads (dumps d.deployment) = some d.deployment)
    (hstarted : Started sensors dir) (hpiece : d.InOnePiece) (hlists : d.Lists sensors) :
    d.Taken loads sensors dir ∧ Started sensors (step loads sensors dir d) := by
  have hreceive := receiveAndWrite_eq dumps hlossless d.arrival hpiece.1 hpiece.2 dir
  have hreturned := write2file_started hstarted hlists
  refine ⟨⟨?_, ?_, fun filenames apps hini happs taskId => ?_⟩, ?_⟩
  · rw [hreceive, hreturned]
  · rw [hreceive]
    exact atomic_started hstarted hlists
  · rw [mem_updateDeployedApp happs hini, ← deployed_write2file hreturned]
    unfold step Directory.Deployed Directory.DeployedAt
    rw [hreceive, run_ini]
  · unfold step
    rw [hreceive]
    exact started_run hstarted hlists

/-- From started sensors on, every deployment of a run is applied as a whole if each arrives in one piece and lists
only sensors that are started. -/
theorem deliveries_taken (deliveries : List (Delivery dumps)) (hstarted : Started sensors dir)
    (hlossless : ∀ d ∈ deliveries, loads (dumps d.deployment) = some d.deployment)
    (hpieces : ∀ d ∈ deliveries, d.InOnePiece) (hlists : ∀ d ∈ deliveries, d.Lists sensors) :
    AlongRun (step loads sensors) (fun dir d => d.Taken loads sensors dir) dir deliveries := by
  induction deliveries generalizing dir with
  | nil => trivial
  | cons d deliveries ih =>
    obtain ⟨hlossless, hlossless'⟩ := List.forall_mem_cons.mp hlossless
    obtain ⟨hpiece, hpieces⟩ := List.forall_mem_cons.mp hpieces
    obtain ⟨hlisted, hlists⟩ := List.forall_mem_cons.mp hlists
    obtain ⟨htaken, hstarted⟩ := taken_of_started hlossless hstarted hpiece hlisted
    exact ⟨htaken, ih hstarted hlossless' hpieces hlists⟩

end Delivery

/-- Task 1 on the lidar 10101, and task 2 on the camera 10201. -/
def lidarAndCamera : Deployment := ⟨[(10101, [1]), (10201, [2])], by decide⟩

/-- No task on the camera any more. -/
def cameraOff : Deployment := ⟨[(10201, [])], by decide⟩

/-- Their pickles. -/
def pickles (d : Deployment) : Bytes :=
  if d.entries = lidarAndCamera.entries then
    [128, 4, 149, 21, 0, 0, 0, 0, 0, 0, 0, 125, 148, 40, 77, 117, 39, 93, 148, 75, 1, 97, 77, 217, 39, 93, 148, 75, 2,
      97, 117, 46]
  else [128, 4, 149, 9, 0, 0, 0, 0, 0, 0, 0, 125, 148, 77, 217, 39, 93, 148, 115, 46]

def unpickles (s : Bytes) : Option Deployment :=
  if s = pickles lidarAndCamera then some lidarAndCamera
  else if s = pickles cameraOff then some cameraOff
  else none

theorem pickles_ne_nil (d : Deployment) : pickles d ≠ [] := by
  unfold pickles
  split_ifs <;> exact List.cons_ne_nil _ _

/-- A deployment in one piece. -/
def inOnePiece (d : Deployment) : Delivery pickles := ⟨d, Arrival.whole (pickles_ne_nil d)⟩

/-- The sensors 10101 and 10201 with the key 10301, both running. -/
def bothRunning : Directory where
  ini key := if key = 10101 ∨ key = 10201 then some ⟨strList [10301], []⟩ else none
  lock _ := false
  unlock key := key == 10101 || key == 10201
  json := []

/-- Both sensors get tasks, then the camera loses its one. -/
theorem deliveries_taken_cameraOff :
    AlongRun (Delivery.step unpickles [10101, 10201]) (fun dir d => d.Taken unpickles [10101, 10201] dir) bothRunning
      [inOnePiece lidarAndCamera, inOnePiece cameraOff] := by
  have hlength : ∀ d ∈ [inOnePiece lidarAndCamera, inOnePiece cameraOff], d.InOnePiece :=
    List.forall_mem_cons.mpr ⟨⟨le_refl 1, by decide⟩, List.forall_mem_singleton.mpr ⟨le_refl 1, by decide⟩⟩
  have hlists : ∀ d ∈ [inOnePiece lidarAndCamera, inOnePiece cameraOff], d.Lists [10101, 10201] := by
    unfold Delivery.Lists
    exact List.forall_mem_cons.mpr ⟨by decide, List.forall_mem_singleton.mpr (by decide)⟩
  refine Delivery.deliveries_taken _ (by unfold Started; decide)
      (List.forall_mem_cons.mpr ⟨if_pos rfl, ?_⟩) hlength hlists
  exact List.forall_mem_singleton.mpr ((if_neg (by decide)).trans (if_pos rfl))

end Soar.Node
