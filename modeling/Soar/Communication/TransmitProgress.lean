import Soar.Communication.TransmitQueue
import Soar.Library.ConditionVariable

/-! The transmit queue in all runs: its mutex, its bound, its order, and how far its threads are from an empty queue. -/
namespace Soar.Communication
open Soar.Library

def LidarPoint.Inside : LidarPoint → Prop
  | .push _ => True
  | .unlock => True
  | _ => False

def ResultPoint.Inside : ResultPoint → Prop
  | .push => True
  | .unlock => True
  | _ => False

def MainPoint.Inside : MainPoint → Prop
  | .pop => True
  | .unlock _ => True
  | _ => False

namespace Transmitter

variable (w : Transmitter)

/-- The thread stands between `lock` and `unlock`. -/
def Inside : TxParty → Prop
  | .lidar => w.lidar.Inside
  | .result => w.result.Inside
  | .main => w.main.Inside

/-- The mutex belongs to the thread inside, the queue has its bound, and what was pushed is what was sent, what
the main loop holds and what is queued, in this order. -/
structure Guarded : Prop where
  mutex : ∀ t, w.mutex = some t ↔ w.Inside t
  bounded : w.packetQueue.length ≤ maxQueueSize
  order : w.pushed.map Prod.fst = w.sent.map Prod.fst ++ held w.main ++ w.packetQueue

theorem guarded_start (memory : Pointer → Buffer) : Guarded { memory := memory } where
  mutex := by
    intro t
    constructor
    · intro h
      cases h
    · intro h
      cases t <;> exact False.elim h
  bounded := Nat.zero_le _
  order := rfl

variable {w} {w' : Transmitter}

private theorem Guarded.mutex_step (h : w.Guarded) (t : TxParty)
    (hothers : ∀ t', t' ≠ t → (w'.Inside t' ↔ w.Inside t'))
    (hown : (w'.mutex = w.mutex ∧ (w'.Inside t ↔ w.Inside t)) ∨ (w.mutex = none ∧ w'.mutex = some t ∧ w'.Inside t) ∨
      w.Inside t ∧ w'.mutex = none ∧ ¬ w'.Inside t) (t' : TxParty) : w'.mutex = some t' ↔ w'.Inside t' :=
  @Condition.holder_step _ ⟨w.mutex, []⟩ ⟨w'.mutex, []⟩ _ _ h.mutex t hothers hown t'

private theorem others_of_lidar (hresult : w'.result = w.result) (hmain : w'.main = w.main) :
    ∀ t', t' ≠ .lidar → (w'.Inside t' ↔ w.Inside t') := by
  intro t' hne
  cases t' with
  | lidar => exact absurd rfl hne
  | result => rw [Inside, Inside, hresult]
  | main => rw [Inside, Inside, hmain]

private theorem others_of_result (hlidar : w'.lidar = w.lidar) (hmain : w'.main = w.main) :
    ∀ t', t' ≠ .result → (w'.Inside t' ↔ w.Inside t') := by
  intro t' hne
  cases t' with
  | lidar => rw [Inside, Inside, hlidar]
  | result => exact absurd rfl hne
  | main => rw [Inside, Inside, hmain]

private theorem others_of_main (hlidar : w'.lidar = w.lidar) (hresult : w'.result = w.result) :
    ∀ t', t' ≠ .main → (w'.Inside t' ↔ w.Inside t') := by
  intro t' hne
  cases t' with
  | lidar => rw [Inside, Inside, hlidar]
  | result => rw [Inside, Inside, hresult]
  | main => exact absurd rfl hne

private theorem Guarded.push_order (h : w.Guarded) (p : Pointer) :
    (w.push p).pushed.map Prod.fst = (w.push p).sent.map Prod.fst ++ held (w.push p).main ++ (w.push p).packetQueue := by
  rw [push]
  dsimp only
  rw [List.map_append, h.order, List.map_singleton, List.append_assoc _ w.packetQueue]

private theorem Guarded.push_bounded (hlt : w.packetQueue.length < maxQueueSize) (p : Pointer) :
    (w.push p).packetQueue.length ≤ maxQueueSize := by
  rw [push]
  dsimp only
  rw [List.length_append, List.length_singleton]
  exact hlt

private theorem Guarded.stepLidar (h : w.Guarded) (data : Option LidarPacket) : (w.stepLidar data).Guarded := by
  unfold Transmitter.stepLidar
  cases hp : w.lidar with
  | idle =>
    dsimp only
    split
    · exact h
    · split_ifs
      · refine ⟨h.mutex_step .lidar (others_of_lidar rfl rfl) (.inl ⟨rfl, ?_⟩), h.bounded, h.order⟩
        rw [Inside, Inside, hp]
        rfl
      · exact h
  | copy txBuf packet =>
    refine ⟨h.mutex_step .lidar (others_of_lidar rfl rfl) (.inl ⟨rfl, ?_⟩), h.bounded, h.order⟩
    rw [Inside, Inside, hp]
    rfl
  | acquire txBuf =>
    dsimp only [lock]
    split_ifs with hfree
    · exact ⟨h.mutex_step .lidar (others_of_lidar rfl rfl) (.inr (.inl ⟨hfree, rfl, trivial⟩)), h.bounded, h.order⟩
    · exact h
  | push txBuf =>
    have hinside : w.Inside .lidar := by
      rw [Inside, hp]
      trivial
    dsimp only
    split_ifs with hlt
    · refine ⟨h.mutex_step .lidar (others_of_lidar rfl rfl) (.inl ⟨rfl, ?_⟩), ?_, ?_⟩
      · exact iff_of_true trivial hinside
      · exact Guarded.push_bounded hlt txBuf
      · exact h.push_order txBuf
    · exact ⟨h.mutex_step .lidar (others_of_lidar rfl rfl) (.inr (.inr ⟨hinside, rfl, id⟩)), h.bounded, h.order⟩
  | unlock =>
    have hinside : w.Inside .lidar := by
      rw [Inside, hp]
      trivial
    exact ⟨h.mutex_step .lidar (others_of_lidar rfl rfl) (.inr (.inr ⟨hinside, rfl, id⟩)), h.bounded, h.order⟩

private theorem Guarded.stepResult (h : w.Guarded) (datagram : Option (List SymbolType)) :
    (w.stepResult datagram).Guarded := by
  unfold Transmitter.stepResult
  cases hp : w.result with
  | recv =>
    dsimp only
    split <;>
    · refine ⟨h.mutex_step .result (others_of_result rfl rfl) (.inl ⟨rfl, ?_⟩), h.bounded, h.order⟩
      rw [Inside, Inside, hp]
      rfl
  | acquire =>
    dsimp only [lock]
    split_ifs with hfree
    · exact ⟨h.mutex_step .result (others_of_result rfl rfl) (.inr (.inl ⟨hfree, rfl, trivial⟩)), h.bounded, h.order⟩
    · exact h
  | push =>
    have hinside : w.Inside .result := by
      rw [Inside, hp]
      trivial
    dsimp only
    split_ifs with hlt
    · refine ⟨h.mutex_step .result (others_of_result rfl rfl) (.inl ⟨rfl, ?_⟩), ?_, ?_⟩
      · exact iff_of_true trivial hinside
      · exact Guarded.push_bounded hlt .buffer
      · exact h.push_order .buffer
    · exact ⟨h.mutex_step .result (others_of_result rfl rfl) (.inr (.inr ⟨hinside, rfl, id⟩)), h.bounded, h.order⟩
  | unlock =>
    have hinside : w.Inside .result := by
      rw [Inside, hp]
      trivial
    exact ⟨h.mutex_step .result (others_of_result rfl rfl) (.inr (.inr ⟨hinside, rfl, id⟩)), h.bounded, h.order⟩
  | finished => exact h

private theorem Guarded.stepMain (h : w.Guarded) : w.stepMain.Guarded := by
  have horder := h.order
  unfold Transmitter.stepMain
  cases hp : w.main with
  | acquire =>
    rw [hp] at horder
    dsimp only [lock]
    split_ifs with hfree
    · exact ⟨h.mutex_step .main (others_of_main rfl rfl) (.inr (.inl ⟨hfree, rfl, trivial⟩)), h.bounded, horder⟩
    · exact h
  | pop =>
    have hinside : w.Inside .main := by
      rw [Inside, hp]
      trivial
    rw [hp] at horder
    dsimp only
    split
    · exact ⟨h.mutex_step .main (others_of_main rfl rfl) (.inr (.inr ⟨hinside, rfl, id⟩)), h.bounded, horder⟩
    · rename_i buf packetQueue hq
      have hbounded := h.bounded
      rw [hq] at horder hbounded
      refine ⟨h.mutex_step .main (others_of_main rfl rfl) (.inl ⟨rfl, iff_of_true trivial hinside⟩), ?_, ?_⟩
      · exact Nat.le_of_succ_le hbounded
      · simpa only [held, List.append_nil, List.append_assoc, List.singleton_append] using horder
  | unlock buf =>
    have hinside : w.Inside .main := by
      rw [Inside, hp]
      trivial
    rw [hp] at horder
    exact ⟨h.mutex_step .main (others_of_main rfl rfl) (.inr (.inr ⟨hinside, rfl, id⟩)), h.bounded, horder⟩
  | send buf =>
    rw [hp] at horder
    refine ⟨h.mutex_step .main (others_of_main rfl rfl) (.inl ⟨rfl, ?_⟩), h.bounded, ?_⟩
    · rw [Inside, Inside, hp]
      rfl
    · simpa only [held, List.map_append, List.map_singleton, List.append_nil] using horder
  | delete buf =>
    rw [hp] at horder
    refine ⟨h.mutex_step .main (others_of_main rfl rfl) (.inl ⟨rfl, ?_⟩), h.bounded, horder⟩
    rw [Inside, Inside, hp]
    rfl

theorem Guarded.step (h : w.Guarded) (t : TxTurn) : (w.step t).Guarded := by
  cases t with
  | lidar data => exact h.stepLidar data
  | result datagram => exact h.stepResult datagram
  | main => exact h.stepMain

/-- A step pushes at the end or not at all. -/
theorem pushed_step (w : Transmitter) (t : TxTurn) : w.pushed <+: (w.step t).pushed := by
  have hpush (p : Pointer) : w.pushed <+: (w.push p).pushed := List.prefix_append ..
  cases t with
  | lidar data =>
    change w.pushed <+: (w.stepLidar data).pushed
    unfold Transmitter.stepLidar
    cases w.lidar <;> dsimp only [lock] <;> (try split) <;> (try split_ifs) <;>
      first | exact List.prefix_rfl | exact hpush _
  | result datagram =>
    change w.pushed <+: (w.stepResult datagram).pushed
    unfold Transmitter.stepResult
    cases w.result <;> dsimp only [lock] <;> (try split) <;> first | exact List.prefix_rfl | exact hpush _
  | main =>
    change w.pushed <+: w.stepMain.pushed
    unfold Transmitter.stepMain
    cases w.main <;> dsimp only [lock] <;> (try split) <;> exact List.prefix_rfl

/-- What the callback has allocated is pushed or is still to be pushed. -/
theorem unpushed_step {p : Pointer} (h : unpushed w.lidar = some p) (t : TxTurn) :
    unpushed (w.step t).lidar = some p ∨ p ∈ (w.step t).pushed.map Prod.fst := by
  cases t with
  | lidar data =>
    change unpushed (w.stepLidar data).lidar = some p ∨ p ∈ (w.stepLidar data).pushed.map Prod.fst
    unfold Transmitter.stepLidar
    cases hp : w.lidar with
    | idle =>
      rw [hp] at h
      cases h
    | copy txBuf packet =>
      rw [hp] at h
      exact .inl h
    | acquire txBuf =>
      have hkeep := h
      rw [hp] at h
      dsimp only [lock]
      split_ifs
      · exact .inl h
      · exact .inl hkeep
    | push txBuf =>
      rw [hp] at h
      dsimp only
      split_ifs
      · obtain rfl := Option.some.inj h
        apply Or.inr
        rw [push]
        simp
      · exact .inl h
    | unlock =>
      rw [hp] at h
      cases h
  | result datagram =>
    have hlidar : (w.stepResult datagram).lidar = w.lidar := by
      unfold Transmitter.stepResult
      cases w.result <;> dsimp only [lock] <;> (try split) <;> rfl
    exact .inl ((congrArg unpushed hlidar).trans h)
  | main =>
    have hlidar : w.stepMain.lidar = w.lidar := by
      unfold Transmitter.stepMain
      cases w.main <;> dsimp only [lock] <;> (try split) <;> rfl
    exact .inl ((congrArg unpushed hlidar).trans h)

/-- The queue is empty and no thread is inside. -/
structure Drained (w : Transmitter) : Prop where
  mutex : w.mutex = none
  packetQueue : w.packetQueue = []
  main : w.main = .acquire

/-- With an empty queue, all that was pushed has been sent. -/
theorem Guarded.sent_of_drained (h : w.Guarded) (hdrained : w.Drained) :
    w.sent.map Prod.fst = w.pushed.map Prod.fst := by
  have hheld : held .acquire = [] := rfl
  rw [h.order, hdrained.main, hdrained.packetQueue, hheld, List.append_nil, List.append_nil]

/-- How many steps the main loop takes until it waits at an empty queue. -/
def mainRank (queued : Nat) : MainPoint → Nat
  | .acquire => 5 * queued
  | .pop => if queued = 0 then 1 else 5 * (queued - 1) + 4
  | .unlock _ => 5 * queued + 3
  | .send _ => 5 * queued + 2
  | .delete _ => 5 * queued + 1

/-- What a thread that is inside adds to them. -/
def lidarRank : LidarPoint → Nat
  | .push _ => 7
  | .unlock => 1
  | _ => 0

def resultRank : ResultPoint → Nat
  | .push => 7
  | .unlock => 1
  | _ => 0

def drainRank (w : Transmitter) : Nat := mainRank w.packetQueue.length w.main + lidarRank w.lidar + resultRank w.result

private theorem mainRank_succ_le (queued : Nat) (point : MainPoint) :
    mainRank (queued + 1) point ≤ mainRank queued point + 5 := by
  cases point <;> simp only [mainRank] <;> (try split_ifs) <;> omega

private theorem drainRank_push (w : Transmitter) (p : Pointer) :
    mainRank (w.push p).packetQueue.length (w.push p).main ≤ mainRank w.packetQueue.length w.main + 5 := by
  rw [push]
  dsimp only
  rw [List.length_append, List.length_singleton]
  exact mainRank_succ_le _ _

/-- The turn of a thread that nothing is delivered to. -/
def turnOf : TxParty → TxTurn
  | .lidar => .lidar none
  | .result => .result none
  | .main => .main

/-- The thread inside comes closer to an empty queue. -/
theorem Guarded.lower_inside (h : w.Guarded) {party : TxParty} (hmutex : w.mutex = some party) :
    (w.step (turnOf party)).drainRank < w.drainRank := by
  have hinside := (h.mutex party).mp hmutex
  cases party with
  | lidar =>
    change (w.stepLidar none).drainRank < _
    unfold Transmitter.stepLidar
    cases hp : w.lidar <;> rw [Inside, hp] at hinside <;> try exact False.elim hinside
    · dsimp only
      split_ifs
      · have hle := drainRank_push w ‹_›
        simp only [drainRank, hp, lidarRank] at hle ⊢
        exact Nat.add_lt_add_right (by omega) _
      · simp only [drainRank, hp, lidarRank]
        omega
    · simp only [drainRank, hp, lidarRank]
      omega
  | result =>
    change (w.stepResult none).drainRank < _
    unfold Transmitter.stepResult
    cases hp : w.result <;> rw [Inside, hp] at hinside <;> try exact False.elim hinside
    · dsimp only
      split_ifs
      · have hle := drainRank_push w .buffer
        have hlidar : (w.push .buffer).lidar = w.lidar := rfl
        simp only [drainRank, hp, resultRank, hlidar] at hle ⊢
        omega
      · simp only [drainRank, hp, resultRank]
        omega
    · simp only [drainRank, hp, resultRank]
      omega
  | main =>
    change w.stepMain.drainRank < _
    unfold Transmitter.stepMain
    cases hp : w.main <;> rw [Inside, hp] at hinside <;> try exact False.elim hinside
    · dsimp only
      split
      · rename_i hq
        simp only [drainRank, hp, hq, mainRank, List.length_nil, if_pos]
        omega
      · rename_i buf packetQueue hq
        simp only [drainRank, hp, hq, mainRank, List.length_cons]
        rw [if_neg (Nat.succ_ne_zero _)]
        omega
    · simp only [drainRank, hp, mainRank]
      omega

/-- While the mutex is free, no thread is between lock and unlock. -/
theorem Guarded.not_inside (h : w.Guarded) (hmutex : w.mutex = none) (party : TxParty) : ¬ w.Inside party := by
  intro hinside
  have hsome := (h.mutex party).mpr hinside
  rw [hmutex] at hsome
  cases hsome

/-- Where no thread is inside, the main loop does. -/
theorem Guarded.lower_main (h : w.Guarded) (hmutex : w.mutex = none) (hnot : ¬ w.Drained) :
    (w.step .main).drainRank < w.drainRank := by
  change w.stepMain.drainRank < _
  unfold Transmitter.stepMain
  cases hp : w.main with
  | acquire =>
    have hqueue : w.packetQueue ≠ [] := fun hempty => hnot ⟨hmutex, hempty, hp⟩
    have hpos := List.length_pos_iff.mpr hqueue
    dsimp only [lock]
    rw [if_pos hmutex]
    simp only [drainRank, hp, mainRank]
    rw [if_neg hpos.ne']
    omega
  | pop | unlock _ =>
    exact absurd (by rw [Inside, hp]; trivial) (h.not_inside hmutex .main)
  | send buf | delete buf =>
    simp only [drainRank, hp, mainRank]
    omega

/-- What a continuation of a run keeps. -/
structure Continues (w w' : Transmitter) : Prop where
  pushed : w.pushed <+: w'.pushed
  unpushed : ∀ p, unpushed w.lidar = some p → unpushed w'.lidar = some p ∨ p ∈ w'.pushed.map Prod.fst

theorem continues (w : Transmitter) (turns : List TxTurn) : Continues w (turns.foldl Transmitter.step w) := by
  induction turns generalizing w with
  | nil => exact ⟨List.prefix_rfl, fun _ hp => .inl hp⟩
  | cons t turns ih =>
    obtain ⟨hpushed, hunpushed⟩ := ih (w.step t)
    refine ⟨(pushed_step w t).trans hpushed, ?_⟩
    intro p hp
    rcases unpushed_step hp t with hnext | hnext
    · exact hunpushed p hnext
    · exact .inr ((hpushed.map Prod.fst).subset hnext)

end Transmitter

end Soar.Communication
