import Soar.Communication.LDPC
import Soar.Library.AlongRun

/-! The transmit queue of `libroad_tx.cpp`: the lidar callback and `recv_result` push pointers, the main loop sends
and deletes what they point to. -/
namespace Soar.Communication
open Soar.Library

def MAX_PACKET_SIZE : Nat := 1510

def maxQueueSize : Nat := 100

def bufSize : Nat := 1362

def sizeofPktHdr : Nat := 4

def kExtendCartesian : Nat := 2

/-- An array from `new`, or the local array `buffer` of `recv_result`. -/
inductive Pointer
  | heap (n : Nat)
  | buffer
deriving DecidableEq

/-- A packet with the `nodeId` of its device, of a size that the callback's array holds. -/
structure LidarPacket where
  dataType : Nat
  nodeId : Nat
  bytes : List SymbolType
  fits : sizeofPktHdr + bytes.length ≤ MAX_PACKET_SIZE

/-- `memcpy` to `offset`. -/
def writeBytes (offset : Nat) (bytes : List SymbolType) (buf : Buffer) : Buffer := fun k =>
  if offset ≤ k then (bytes[k - offset]?).getD (buf k) else buf k

/-- The packed header: a byte, and a bit-field of 24 bits. -/
def setPktHdr (nodeId pktId : Nat) (buf : Buffer) : Buffer :=
  writeBytes 0 [.ofNat nodeId, .ofNat pktId, .ofNat (pktId / 2 ^ 8), .ofNat (pktId / 2 ^ 16)] buf

inductive TxParty
  | lidar
  | result
  | main
deriving DecidableEq

/-- `GetLidarData`. -/
inductive LidarPoint
  | idle
  | copy (txBuf : Pointer) (packet : LidarPacket)
  | acquire (txBuf : Pointer)
  | push (txBuf : Pointer)
  | unlock

/-- `recv_result`. -/
inductive ResultPoint
  | recv
  | acquire
  | push
  | unlock
  | finished
deriving DecidableEq

/-- The loop of `main`. -/
inductive MainPoint
  | acquire
  | pop
  | unlock (buf : Pointer)
  | send (buf : Pointer)
  | delete (buf : Pointer)
deriving DecidableEq

/-- What the threads share, where they are, and what they have pushed, sent and deleted. -/
structure Transmitter where
  memory : Pointer → Buffer
  allocated : Nat := 0
  pktId : Nat := 0
  packetQueue : List Pointer := []
  mutex : Option TxParty := none
  lidar : LidarPoint := .idle
  result : ResultPoint := .recv
  main : MainPoint := .acquire
  pushed : List (Pointer × List SymbolType) := []
  sent : List (Pointer × List SymbolType) := []
  deleted : List Pointer := []

/-- Who takes the next step; what the lidar and the socket deliver counts when they are waited for. -/
inductive TxTurn
  | lidar (data : Option LidarPacket)
  | result (datagram : Option (List SymbolType))
  | main

namespace Transmitter

variable (w : Transmitter)

/-- The bytes that `send` reads, past the end of the 1024 bytes of `buffer`. -/
def bytesAt (p : Pointer) : List SymbolType := (List.range (bufSize + sizeofPktHdr)).map (w.memory p)

/-- `lk.lock()`. -/
def lock (t : TxParty) (w' : Transmitter) : Transmitter :=
  if w.mutex = none then { w' with mutex := some t } else w

def push (p : Pointer) : Transmitter :=
  { w with packetQueue := w.packetQueue ++ [p], pushed := w.pushed ++ [(p, w.bytesAt p)] }

-- a `wait` gives the mutex back and may wake up at any time
def stepLidar (data : Option LidarPacket) : Transmitter :=
  match w.lidar with
  | .idle =>
    match data with
    | none => w
    | some packet =>
      if packet.dataType = kExtendCartesian then
        { w with allocated := w.allocated + 1, lidar := .copy (.heap w.allocated) packet }
      else w
  | .copy txBuf packet =>
    { w with
      memory := Function.update w.memory txBuf
        (setPktHdr packet.nodeId w.pktId (writeBytes sizeofPktHdr packet.bytes (w.memory txBuf)))
      pktId := w.pktId + 1
      lidar := .acquire txBuf }
  | .acquire txBuf => w.lock .lidar { w with lidar := .push txBuf }
  | .push txBuf =>
    if w.packetQueue.length < maxQueueSize then { w.push txBuf with lidar := .unlock }
    else { w with mutex := none, lidar := .acquire txBuf }
  | .unlock => { w with mutex := none, lidar := .idle }

def stepResult (datagram : Option (List SymbolType)) : Transmitter :=
  match w.result with
  | .recv =>
    match datagram with
    | none => { w with result := .finished }
    | some bytes =>
      { w with
        memory := Function.update w.memory .buffer (writeBytes 0 (bytes.take 1023) (w.memory .buffer))
        result := .acquire }
  | .acquire => w.lock .result { w with result := .push }
  | .push =>
    if w.packetQueue.length < maxQueueSize then { w.push .buffer with result := .unlock }
    else { w with mutex := none, result := .acquire }
  | .unlock => { w with mutex := none, result := .recv }
  | .finished => w

def stepMain : Transmitter :=
  match w.main with
  | .acquire => w.lock .main { w with main := .pop }
  | .pop =>
    match w.packetQueue with
    | [] => { w with mutex := none, main := .acquire }
    | buf :: packetQueue => { w with packetQueue := packetQueue, main := .unlock buf }
  | .unlock buf => { w with mutex := none, main := .send buf }
  | .send buf => { w with sent := w.sent ++ [(buf, w.bytesAt buf)], main := .delete buf }
  -- undefined for `buffer`, which is not from `new`; the run has lost its integrity by then
  | .delete buf => { w with deleted := w.deleted ++ [buf], main := .acquire }

def step : TxTurn → Transmitter
  | .lidar data => w.stepLidar data
  | .result datagram => w.stepResult datagram
  | .main => w.stepMain

/-- No datagram enters the queue. -/
def NoDatagram : TxTurn → Prop
  | .result _ => w.result = .push → maxQueueSize ≤ w.packetQueue.length
  | _ => True

/-- What is sent is what was pushed, in its order; each element has a buffer of its own, which is deleted
after its element has been sent, once. -/
structure Integrity : Prop where
  sent : w.sent <+: w.pushed
  own : (w.pushed.map Prod.fst).Nodup ∧ .buffer ∉ w.pushed.map Prod.fst
  once : ∀ p, w.deleted.count p ≤ 1
  deleted : ∀ element ∈ w.sent, element.1 ∈ w.deleted ∨ w.main = .delete element.1
  only : ∀ p ∈ w.deleted, p ∈ w.sent.map Prod.fst

/-- The array that the callback has allocated and not pushed yet. -/
def unpushed : LidarPoint → Option Pointer
  | .copy txBuf _ => some txBuf
  | .acquire txBuf => some txBuf
  | .push txBuf => some txBuf
  | _ => none

/-- The element that the main loop has popped and not sent yet. -/
def held : MainPoint → List Pointer
  | .unlock buf => [buf]
  | .send buf => [buf]
  | _ => []

/-- The element that the main loop has sent and not deleted yet. -/
def undeleted : MainPoint → List Pointer
  | .delete buf => [buf]
  | _ => []

/-- What holds while no datagram has entered the queue: each element stays as it was pushed. -/
structure Owned : Prop where
  flow : ∃ popped queued, w.pushed = w.sent ++ popped ++ queued ∧ popped.map Prod.fst = held w.main ∧
    queued.map Prod.fst = w.packetQueue
  stable : ∀ element ∈ w.pushed, element ∈ w.sent ∨ w.bytesAt element.1 = element.2
  deleted : w.deleted ++ undeleted w.main = w.sent.map Prod.fst
  heap : ∀ element ∈ w.pushed, ∃ n < w.allocated, element.1 = .heap n
  nodup : (w.pushed.map Prod.fst).Nodup
  lidar : ∀ p, unpushed w.lidar = some p → (∃ n < w.allocated, p = .heap n) ∧ p ∉ w.pushed.map Prod.fst

variable {w} {w' : Transmitter}

theorem Owned.integrity (h : w.Owned) : w.Integrity := by
  obtain ⟨popped, queued, hpushed, -, -⟩ := h.flow
  have hinOrder : w.sent <+: w.pushed := ⟨popped ++ queued, by rw [hpushed, List.append_assoc]⟩
  have hnodup : (w.deleted ++ undeleted w.main).Nodup :=
    h.deleted ▸ h.nodup.sublist (hinOrder.sublist.map Prod.fst)
  refine ⟨hinOrder, ⟨h.nodup, fun hmem => ?_⟩, fun p => ?_, fun element helement => ?_, fun p hp => ?_⟩
  · obtain ⟨element, helement, heq⟩ := List.mem_map.mp hmem
    obtain ⟨n, -, hheap⟩ := h.heap element helement
    cases heq.symm.trans hheap
  · exact List.nodup_iff_count_le_one.mp hnodup.of_append_left p
  · have hmem : element.1 ∈ w.deleted ++ undeleted w.main := h.deleted ▸ List.mem_map_of_mem helement
    apply (List.mem_append.mp hmem).imp_right
    intro hmain
    unfold undeleted at hmain
    split at hmain
    · rename_i buf hmain'
      rw [hmain', List.mem_singleton.mp hmain]
    · cases hmain
  · exact h.deleted ▸ List.mem_append_left _ hp

private theorem bytesAt_congr {p : Pointer} (h : w'.memory p = w.memory p) : w'.bytesAt p = w.bytesAt p := by
  unfold bytesAt
  rw [h]

private theorem Owned.keep (h : w.Owned) (hpushed : w'.pushed = w.pushed) (hsent : w'.sent = w.sent)
    (hqueue : w'.packetQueue = w.packetQueue) (hdeleted : w'.deleted = w.deleted) (hheld : held w'.main = held w.main)
    (hundeleted : undeleted w'.main = undeleted w.main) (hallocated : w.allocated ≤ w'.allocated)
    (hmemory : ∀ element ∈ w.pushed, w'.memory element.1 = w.memory element.1)
    (hlidar : ∀ p, unpushed w'.lidar = some p → (∃ n < w'.allocated, p = .heap n) ∧ p ∉ w.pushed.map Prod.fst) :
    w'.Owned := by
  constructor
  · rw [hpushed, hsent, hheld, hqueue]
    exact h.flow
  · intro element helement
    rw [hpushed] at helement
    rw [hsent, bytesAt_congr (hmemory element helement)]
    exact h.stable element helement
  · rw [hdeleted, hundeleted, hsent]
    exact h.deleted
  · intro element helement
    obtain ⟨n, hn, heq⟩ := h.heap element (hpushed ▸ helement)
    exact ⟨n, hn.trans_le hallocated, heq⟩
  · rw [hpushed]
    exact h.nodup
  · rw [hpushed]
    exact hlidar

private theorem Owned.keep_lidar (h : w.Owned) (hlidar : w'.lidar = w.lidar) (hallocated : w'.allocated = w.allocated)
    (hpushed : w'.pushed = w.pushed) (hsent : w'.sent = w.sent) (hqueue : w'.packetQueue = w.packetQueue)
    (hdeleted : w'.deleted = w.deleted) (hheld : held w'.main = held w.main)
    (hundeleted : undeleted w'.main = undeleted w.main) (hmemory : ∀ n, w'.memory (.heap n) = w.memory (.heap n)) :
    w'.Owned := by
  refine h.keep hpushed hsent hqueue hdeleted hheld hundeleted hallocated.ge ?_ ?_
  · intro element helement
    obtain ⟨n, -, heq⟩ := h.heap element helement
    rw [heq, hmemory]
  · rw [hlidar, hallocated]
    exact h.lidar

private theorem Owned.stepLidar (h : w.Owned) (data : Option LidarPacket) : (w.stepLidar data).Owned := by
  unfold Transmitter.stepLidar
  cases hp : w.lidar with
  | idle =>
    dsimp only
    split
    · exact h
    · split_ifs
      · refine h.keep rfl rfl rfl rfl rfl rfl (Nat.le_succ _) (fun _ _ => rfl) fun p hp => ?_
        obtain rfl := Option.some.inj hp
        refine ⟨⟨w.allocated, Nat.lt_succ_self _, rfl⟩, fun hmem => ?_⟩
        obtain ⟨element, helement, heq⟩ := List.mem_map.mp hmem
        obtain ⟨n, hn, hheap⟩ := h.heap element helement
        obtain rfl := Pointer.heap.inj (heq.symm.trans hheap)
        exact Nat.lt_irrefl _ hn
      · exact h
  | copy txBuf packet =>
    have hown := h.lidar txBuf (by rw [hp]; rfl)
    refine h.keep rfl rfl rfl rfl rfl rfl (Nat.le_refl _) (fun element helement => ?_) fun p hp => ?_
    · exact Function.update_of_ne (fun heq : element.1 = txBuf => hown.2 (heq ▸ List.mem_map_of_mem helement)) _ _
    · obtain rfl := Option.some.inj hp
      exact hown
  | acquire txBuf =>
    have hown := h.lidar txBuf (by rw [hp]; rfl)
    dsimp only [lock]
    split_ifs
    · refine h.keep rfl rfl rfl rfl rfl rfl (Nat.le_refl _) (fun _ _ => rfl) fun p hp => ?_
      obtain rfl := Option.some.inj hp
      exact hown
    · exact h
  | push txBuf =>
    obtain ⟨⟨n, hn, rfl⟩, hnew⟩ := h.lidar txBuf (by rw [hp]; rfl)
    dsimp only
    split_ifs
    · obtain ⟨popped, queued, hpushed, hheld, hqueued⟩ := h.flow
      constructor
      · refine ⟨popped, queued ++ [(.heap n, w.bytesAt (.heap n))], ?_, hheld, ?_⟩
        · simp only [push, hpushed, List.append_assoc]
        · rw [List.map_append, hqueued]
          rfl
      · intro element helement
        rcases List.mem_append.mp helement with helement | helement
        · exact h.stable element helement
        · obtain rfl := List.mem_singleton.mp helement
          right
          dsimp only
          exact bytesAt_congr rfl
      · exact h.deleted
      · intro element helement
        rcases List.mem_append.mp helement with helement | helement
        · exact h.heap element helement
        · obtain rfl := List.mem_singleton.mp helement
          exact ⟨n, hn, rfl⟩
      · simp only [push, List.map_append, List.map_cons, List.map_nil]
        exact List.nodup_append.mpr ⟨h.nodup, List.nodup_singleton _, fun p hp q hq heq =>
          hnew (List.mem_singleton.mp hq ▸ heq ▸ hp)⟩
      · nofun
    · refine h.keep rfl rfl rfl rfl rfl rfl (Nat.le_refl _) (fun _ _ => rfl) fun p hp => ?_
      obtain rfl := Option.some.inj hp
      exact ⟨⟨n, hn, rfl⟩, hnew⟩
  | unlock => exact h.keep rfl rfl rfl rfl rfl rfl (Nat.le_refl _) (fun _ _ => rfl) nofun

private theorem Owned.stepResult (h : w.Owned) (datagram : Option (List SymbolType))
    (hno : w.NoDatagram (.result datagram)) : (w.stepResult datagram).Owned := by
  unfold Transmitter.stepResult
  cases hp : w.result with
  | recv =>
    dsimp only
    split
    · exact h.keep_lidar rfl rfl rfl rfl rfl rfl rfl rfl fun _ => rfl
    · refine h.keep_lidar rfl rfl rfl rfl rfl rfl rfl rfl fun n => ?_
      have hne : Pointer.heap n ≠ Pointer.buffer := nofun
      dsimp only
      rw [Function.update_of_ne hne]
  | acquire =>
    dsimp only [lock]
    split_ifs
    · exact h.keep_lidar rfl rfl rfl rfl rfl rfl rfl rfl fun _ => rfl
    · exact h
  | push =>
    dsimp only
    rw [if_neg (Nat.not_lt.mpr (hno hp))]
    exact h.keep_lidar rfl rfl rfl rfl rfl rfl rfl rfl fun _ => rfl
  | unlock => exact h.keep_lidar rfl rfl rfl rfl rfl rfl rfl rfl fun _ => rfl
  | finished => exact h

private theorem Owned.stepMain (h : w.Owned) : w.stepMain.Owned := by
  obtain ⟨popped, queued, hpushed, hheld, hqueued⟩ := h.flow
  unfold Transmitter.stepMain
  cases hp : w.main with
  | acquire =>
    dsimp only [lock]
    split_ifs
    · exact h.keep_lidar rfl rfl rfl rfl rfl rfl (by rw [hp]; rfl) (by rw [hp]; rfl) fun _ => rfl
    · exact h
  | pop =>
    rw [hp] at hheld
    obtain rfl : popped = [] := List.map_eq_nil_iff.mp hheld
    dsimp only
    split
    · exact h.keep_lidar rfl rfl rfl rfl rfl rfl (by rw [hp]; rfl) (by rw [hp]; rfl) fun _ => rfl
    · rename_i buf packetQueue hq
      rw [hq] at hqueued
      obtain ⟨element, rest, rfl, helement, hrest⟩ := List.map_eq_cons_iff.mp hqueued
      refine ⟨⟨[element], rest, ?_, ?_, hrest⟩, h.stable, ?_, h.heap, h.nodup, h.lidar⟩
      · simp only [hpushed, List.append_assoc, List.nil_append, List.singleton_append]
      · exact congrArg (fun p => [p]) helement
      · have hdeleted := h.deleted
        rw [hp] at hdeleted
        exact hdeleted
  | unlock buf => exact h.keep_lidar rfl rfl rfl rfl rfl rfl (by rw [hp]; rfl) (by rw [hp]; rfl) fun _ => rfl
  | send buf =>
    rw [hp] at hheld
    obtain ⟨element, rest, rfl, rfl, hrest⟩ := List.map_eq_cons_iff.mp hheld
    obtain rfl : rest = [] := List.map_eq_nil_iff.mp hrest
    have hmem : element ∈ w.pushed := by
      rw [hpushed]
      simp
    -- the element is not among those that were sent, so it is still as it was pushed
    have hbytes : w.bytesAt element.1 = element.2 := by
      apply (h.stable element hmem).resolve_left
      intro hsent
      have hnodup := h.nodup
      rw [hpushed, List.map_append, List.map_append, List.append_assoc] at hnodup
      exact List.disjoint_of_nodup_append hnodup (List.mem_map_of_mem hsent) (by simp)
    have hsent : w.sent ++ [(element.1, w.bytesAt element.1)] = w.sent ++ [element] := by rw [hbytes]
    constructor
    · refine ⟨[], queued, ?_, rfl, hqueued⟩
      dsimp only
      rw [hsent, List.append_nil, hpushed]
    · intro e he
      dsimp only
      rcases h.stable e he with hmem | hstable
      · exact .inl (List.mem_append_left _ hmem)
      · exact .inr hstable
    · have hdeleted := h.deleted
      rw [hp] at hdeleted
      dsimp only
      rw [hsent, List.map_append, ← hdeleted]
      simp [undeleted]
    · exact h.heap
    · exact h.nodup
    · exact h.lidar
  | delete buf =>
    have hdeleted := h.deleted
    rw [hp] at hdeleted hheld
    refine ⟨⟨popped, queued, hpushed, hheld, hqueued⟩, h.stable, ?_, h.heap, h.nodup, h.lidar⟩
    dsimp only
    rw [← hdeleted, List.append_assoc]
    rfl

theorem Owned.step (h : w.Owned) (t : TxTurn) (hno : w.NoDatagram t) : (w.step t).Owned := by
  cases t with
  | lidar data => exact h.stepLidar data
  | result datagram => exact h.stepResult datagram hno
  | main => exact h.stepMain

theorem owned_start (memory : Pointer → Buffer) : Owned { memory := memory } where
  flow := ⟨[], [], rfl, rfl, rfl⟩
  stable := nofun
  deleted := rfl
  heap := nofun
  nodup := List.nodup_nil
  lidar := nofun

private theorem noDatagram_of_integrity {t : TxTurn} (h : (w.step t).Integrity) : w.NoDatagram t := by
  cases t with
  | lidar _ | main => trivial
  | result datagram =>
    intro hp
    by_contra hlt
    have hpushed : (w.stepResult datagram).pushed = w.pushed ++ [(.buffer, w.bytesAt .buffer)] := by
      unfold Transmitter.stepResult
      rw [hp]
      dsimp only
      rw [if_pos (Nat.lt_of_not_le hlt)]
      rfl
    apply h.own.2
    change _ ∈ (w.stepResult datagram).pushed.map Prod.fst
    rw [hpushed, List.map_append]
    exact List.mem_append_right _ (List.mem_singleton_self _)

end Transmitter

/-- The transmit queue keeps its integrity in all runs in which no datagram enters it, and in no others. -/
theorem transmit_integrity_iff (memory : Pointer → Buffer) (turns : List TxTurn) :
    AlongRun Transmitter.step Transmitter.NoDatagram { memory := memory } turns ↔
      ∀ n ≤ turns.length, ((turns.take n).foldl Transmitter.step { memory := memory }).Integrity := by
  constructor
  · intro h n _
    have howned : ((turns.take n).foldl Transmitter.step { memory := memory }).Owned :=
      (h.take n).inv (fun _ t hw hno => hw.step t hno) (Transmitter.owned_start memory)
    exact howned.integrity
  · exact AlongRun.of_forall_take fun w t => Transmitter.noDatagram_of_integrity

/-- Two datagrams: the second arrives before the main loop sends the first. -/
def twoDatagrams : List TxTurn :=
  [.result (some [.ofNat 1]), .result none, .result none, .result none, .result (some [.ofNat 2]), .main, .main, .main,
    .main, .main, .result none, .result none, .result none, .main, .main, .main, .main, .main]

def sentTwoDatagrams : Transmitter := twoDatagrams.foldl Transmitter.step { memory := fun _ _ => 0 }

/-- The first byte sent for the first datagram is that of the second, and the array of `recv_result` is deleted twice. -/
theorem not_transmit_integrity_twoDatagrams :
    sentTwoDatagrams.pushed.map (fun element => element.2.head?) = [some (.ofNat 1), some (.ofNat 2)] ∧
      sentTwoDatagrams.sent.map (fun element => element.2.head?) = [some (.ofNat 2), some (.ofNat 2)] ∧
        sentTwoDatagrams.deleted = [.buffer, .buffer] ∧ ¬ sentTwoDatagrams.Integrity := by
  have hdeleted : sentTwoDatagrams.deleted = [.buffer, .buffer] := by decide +kernel
  refine ⟨by decide +kernel, by decide +kernel, hdeleted, fun h => ?_⟩
  have honce := h.once .buffer
  rw [hdeleted] at honce
  exact absurd honce (by decide)

end Soar.Communication
