import Soar.Library.Stream
import Soar.Node.TaskMonitor

/-! How a deployment reaches a node: `send_handler` sends its encoding over a stream, from which
`write2file` receives it. -/
namespace Soar.Node
open Soar.Computing Soar.Library

section Transfer

variable (dumps : Deployment → Bytes) (loads : Bytes → Option Deployment)

/-- `recv_dict`: what one `recv(4096)` returns is decoded. -/
def recvDict (chunks : List Bytes) : Option Deployment := loads (recv 4096 chunks).1

/-- `write2file` from its connection on. -/
def receiveAndWrite (chunks : List Bytes) (dir : Directory) : Outcome × Directory :=
  match recvDict loads chunks with
  | none => (.raised, dir)
  | some received => write2file received dir

/-- What `receive_handler` would make of the stream; it receives until the stream ends. -/
def recvWhole (chunks : List Bytes) : Option Deployment := loads (recvAll 1024 chunks)

variable {loads}

/-- Whoever receives until the stream ends decodes what was sent. -/
theorem recvWhole_eq {d : Deployment} (hlossless : loads (dumps d) = some d) (arrival : Arrival (dumps d)) :
    recvWhole loads arrival.chunks = some d := by
  unfold recvWhole
  rw [recvAll_eq (by decide) _ arrival.nonempty, arrival.flatten, hlossless]

private theorem recvDict_of_whole {d : Deployment} (hlossless : loads (dumps d) = some d) (arrival : Arrival (dumps d))
    (hpieces : arrival.chunks.length ≤ 1) (hfits : (dumps d).length ≤ 4096) :
    recvDict loads arrival.chunks = some d := by
  unfold recvDict
  rw [(arrival.recv_eq_iff 4096).mpr ⟨hpieces, hfits⟩, hlossless]

/-- The node then works on what was sent. -/
theorem receiveAndWrite_eq {d : Deployment} (hlossless : loads (dumps d) = some d) (arrival : Arrival (dumps d))
    (hpieces : arrival.chunks.length ≤ 1) (hfits : (dumps d).length ≤ 4096) (dir : Directory) :
    receiveAndWrite loads arrival.chunks dir = write2file d dir := by
  unfold receiveAndWrite
  rw [recvDict_of_whole dumps hlossless arrival hpieces hfits]

/-- The node decodes the dictionary that was sent exactly if its encoding arrives in one piece of
at most 4096 bytes. -/
theorem recvDict_iff {d : Deployment} (hlossless : loads (dumps d) = some d)
    (htruncated : ∀ s, s <+: dumps d → s ≠ dumps d → loads s = none) (arrival : Arrival (dumps d)) :
    recvDict loads arrival.chunks = some d ↔ arrival.chunks.length ≤ 1 ∧ (dumps d).length ≤ 4096 := by
  constructor
  · intro hloads
    rw [← arrival.recv_eq_iff]
    by_contra hne
    have hbegins : (recv 4096 arrival.chunks).1 <+: dumps d :=
      ⟨_, (recv_append 4096 arrival.chunks).trans arrival.flatten⟩
    unfold recvDict at hloads
    rw [htruncated _ hbegins hne] at hloads
    cases hloads
  · rintro ⟨hpieces, hfits⟩
    exact recvDict_of_whole dumps hlossless arrival hpieces hfits

end Transfer

theorem nodup_lidarTask : ([(10101, [1])].map (Prod.fst : Nat × List Nat → Nat)).Nodup := by decide

/-- Task 1 on the sensor 10101. -/
def lidarTask : Deployment := ⟨[(10101, [1])], nodup_lidarTask⟩

/-- Its pickle. -/
def lidarPickle : Bytes :=
  [128, 4, 149, 12, 0, 0, 0, 0, 0, 0, 0, 125, 148, 77, 117, 39, 93, 148, 75, 1, 97, 115, 46]

/-- What is decoded from the pickle and from its proper beginnings. -/
def loadLidarTask (s : Bytes) : Option Deployment := if s = lidarPickle then some lidarTask else none

private theorem loadLidarTask_truncated (s : Bytes) (_ : s <+: lidarPickle) (hne : s ≠ lidarPickle) :
    loadLidarTask s = none := if_neg hne

theorem lidarPickle_ne_nil : lidarPickle ≠ [] := by decide

/-- The pickle in one piece. -/
theorem recvDict_iff_lidarTask :
    recvDict loadLidarTask (Arrival.whole lidarPickle_ne_nil).chunks = some lidarTask :=
  (recvDict_iff (fun _ => lidarPickle) (if_pos rfl) loadLidarTask_truncated (Arrival.whole lidarPickle_ne_nil)).mpr
    ⟨le_refl 1, by decide⟩

/-- The pickle in two pieces, of which the first is decoded alone, and which `receive_handler` would put together. -/
theorem not_recvDict_twoPieces :
    loadLidarTask lidarPickle = some lidarTask ∧
    (∀ s, s <+: lidarPickle → s ≠ lidarPickle → loadLidarTask s = none) ∧
    ∃ arrival : Arrival lidarPickle, arrival.chunks = [lidarPickle.take 8, lidarPickle.drop 8] ∧
      recvDict loadLidarTask arrival.chunks = none ∧
      ¬ recvDict loadLidarTask arrival.chunks = some lidarTask ∧
      recvWhole loadLidarTask arrival.chunks = some lidarTask := by
  have hnonempty : ([] : Bytes) ∉ [lidarPickle.take 8, lidarPickle.drop 8] := by decide
  have hnone : recvDict loadLidarTask [lidarPickle.take 8, lidarPickle.drop 8] = none := by
    unfold recvDict loadLidarTask
    exact if_neg (by decide)
  have hpickle : loadLidarTask lidarPickle = some lidarTask := if_pos rfl
  refine ⟨hpickle, loadLidarTask_truncated, ⟨_, hnonempty, rfl⟩, rfl, hnone, fun hsome => ?_,
    recvWhole_eq (fun _ => lidarPickle) hpickle ⟨_, hnonempty, rfl⟩⟩
  rw [hnone] at hsome
  cases hsome

end Soar.Node
