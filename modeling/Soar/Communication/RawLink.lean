import Soar.Communication.TransmitQueue
import Soar.Communication.FrameRoundTrip
import Soar.Library.LossyChannel

/-! The uncoded link as a whole: the three threads of `libroad_tx.cpp`, the frames on the air, and the main loop of
`libroad_rx.cpp` with its files. -/
namespace Soar.Communication
open Soar.Library

/-- The bytes as `send` gets them. -/
def payloadOf (bytes : List SymbolType) : List UInt8 := bytes.map fun symbol => UInt8.ofNat symbol.toNat

/-- A line of `result.csv`, without its time. -/
structure Row where
  nodeId : Nat
  pktId : Nat
  seqno : Nat
  mcs : Nat
deriving DecidableEq

/-- The bit-field of 24 bits behind the first byte. -/
def readPktId (buf : Nat → UInt8) : Nat := (buf 1).toNat + 2 ^ 8 * (buf 2).toNat + 2 ^ 16 * (buf 3).toNat

/-- Sender, air and receiver; `packets` are those that the callback has copied or is about to copy. -/
structure RawLink where
  tx : Transmitter
  packets : List LidarPacket := []
  txBuf : V2xSocket.TxBuf
  sending : Bool := true
  air : Channel (List UInt8) := {}
  receiving : Bool := true
  buf : Nat → UInt8
  rows : List Row := []
  dataOut : List UInt8 := []

/-- The packets with the one that the callback accepts in this step. -/
def Transmitter.accept (w : Transmitter) (t : TxTurn) (packets : List LidarPacket) : List LidarPacket :=
  match w.lidar, t with
  | .idle, .lidar (some packet) => if packet.dataType = kExtendCartesian then packets ++ [packet] else packets
  | _, _ => packets

/-- A thread of the sender with what `pcap_inject` would return, a lost frame, or a frame that the driver of the
receiver hands over. -/
inductive LinkTurn
  | tx (t : TxTurn) (injected : Int)
  | lose (k : Nat)
  | rx (radiotap : V2xSocket.Radiotap) (fcs : Vector UInt8 4) (behind : Nat → UInt8)

namespace RawLink

variable (w : RawLink)

/-- A step of the sender; a thrown error and a failed assertion end it. -/
def stepTx (mcs : UInt8) (t : TxTurn) (injected : Int) : RawLink :=
  if w.sending then
    match t, w.tx.main with
    | .main, .send buf =>
      match V2xSocket.send w.txBuf (payloadOf (w.tx.bytesAt buf)) mcs injected with
      | .sent txBuf frame => { w with tx := w.tx.step .main, txBuf := txBuf, air := w.air.send frame }
      | .threw txBuf => { w with txBuf := txBuf, sending := false }
      | _ => { w with sending := false }
    | t, _ => { w with tx := w.tx.step t, packets := w.tx.accept t w.packets }
  else w

/-- What the receiver does with the bytes of `recv`. -/
def write (r : V2xSocket.Received) : RawLink :=
  let buf := fun k => (r.data[k]?).getD (w.buf k)
  { w with
    buf := buf
    rows := w.rows ++ [⟨(buf 0).toNat, readPktId buf, r.seqno, r.rate⟩]
    dataOut := w.dataOut ++ (List.range bufSize).map fun k => buf (sizeofPktHdr + k) }

/-- A turn of the receiving loop on the first frame that is on its way. -/
def stepRx (radiotap : V2xSocket.Radiotap) (fcs : Vector UInt8 4) (behind : Nat → UInt8) : RawLink :=
  if w.receiving then
    match w.air.receive with
    | none => w
    | some (frame, air) =>
      let bytes := V2xSocket.overTheAir radiotap fcs frame
      let len := UInt32.ofNat bytes.length
      match V2xSocket.recv 1 ⟨len, len⟩ (fun k => (bytes[k]?).getD (behind k)) (.ofNat (bufSize + sizeofPktHdr)) with
      | .ok r => { w with air := air }.write r
      | .error _ => { w with air := air, receiving := false }
  else w

def step (mcs : UInt8) (w : RawLink) : LinkTurn → RawLink
  | .tx t injected => w.stepTx mcs t injected
  | .lose k => { w with air := w.air.lose k }
  | .rx radiotap fcs behind => w.stepRx radiotap fcs behind

/-- No datagram enters the queue of the sender. -/
def NoDatagram (w : RawLink) : LinkTurn → Prop
  | .tx t _ => w.sending → w.tx.NoDatagram t
  | _ => True

end RawLink

/-- The array of a packet: its header and its bytes, over what the array held. -/
def content (packet : LidarPacket) (pktId : Nat) (before : Buffer) : List SymbolType :=
  (List.range (bufSize + sizeofPktHdr)).map
    (setPktHdr packet.nodeId pktId (writeBytes sizeofPktHdr packet.bytes before))

/-- Each pushed array holds the packet of its place; the callback carries the last packet. -/
structure Numbered (w : Transmitter) (packets : List LidarPacket) : Prop where
  pushed : ∀ (k : Nat) element, w.pushed[k]? = some element →
    ∃ packet before, packets[k]? = some packet ∧ element.2 = content packet k before
  idle : w.lidar = .idle ∨ w.lidar = .unlock → w.pktId = packets.length ∧ w.pushed.length = packets.length
  copy : ∀ txBuf packet, w.lidar = .copy txBuf packet →
    w.pushed.length = w.pktId ∧ packets.length = w.pktId + 1 ∧ packets[w.pktId]? = some packet
  carried : ∀ txBuf, w.lidar = .acquire txBuf ∨ w.lidar = .push txBuf →
    w.pushed.length + 1 = w.pktId ∧ packets.length = w.pktId ∧
      ∃ packet before, packets[w.pushed.length]? = some packet ∧
        w.bytesAt txBuf = content packet w.pushed.length before

namespace Numbered

variable {w w' : Transmitter} {packets : List LidarPacket}

theorem start (memory : Pointer → Buffer) : Numbered { memory := memory } [] where
  pushed := by
    intro k element hk
    cases hk
  idle := fun _ => ⟨rfl, rfl⟩
  copy := by
    intro txBuf packet h
    cases h
  carried := by
    intro txBuf h
    rcases h with h | h <;> cases h

private theorem keep (h : Numbered w packets) (hpushed : w'.pushed = w.pushed) (hpktId : w'.pktId = w.pktId)
    (hidle : w'.lidar = .idle ∨ w'.lidar = .unlock → w.lidar = .idle ∨ w.lidar = .unlock)
    (hcopy : ∀ txBuf packet, w'.lidar = .copy txBuf packet → w.lidar = .copy txBuf packet)
    (hcarried : ∀ txBuf, w'.lidar = .acquire txBuf ∨ w'.lidar = .push txBuf →
      (w.lidar = .acquire txBuf ∨ w.lidar = .push txBuf) ∧ w'.bytesAt txBuf = w.bytesAt txBuf) :
    Numbered w' packets where
  pushed := by
    rw [hpushed]
    exact h.pushed
  idle := by
    intro hw
    rw [hpushed, hpktId]
    exact h.idle (hidle hw)
  copy := by
    intro txBuf packet hw
    rw [hpushed, hpktId]
    exact h.copy txBuf packet (hcopy txBuf packet hw)
  carried := by
    intro txBuf hw
    obtain ⟨hcarry, hbytes⟩ := hcarried txBuf hw
    rw [hpushed, hpktId, hbytes]
    exact h.carried txBuf hcarry

private theorem keep_lidar (h : Numbered w packets) (howned : w.Owned) (hpushed : w'.pushed = w.pushed)
    (hpktId : w'.pktId = w.pktId) (hlidar : w'.lidar = w.lidar)
    (hmemory : ∀ n, w'.memory (.heap n) = w.memory (.heap n)) : Numbered w' packets := by
  apply h.keep hpushed hpktId
  · rw [hlidar]
    exact id
  · rw [hlidar]
    exact fun _ _ => id
  · intro txBuf hw
    rw [hlidar] at hw
    have hunpushed : Transmitter.unpushed w.lidar = some txBuf := by
      rcases hw with hw | hw <;> rw [hw] <;> rfl
    obtain ⟨⟨n, -, rfl⟩, -⟩ := howned.lidar txBuf hunpushed
    refine ⟨hw, ?_⟩
    rw [Transmitter.bytesAt, Transmitter.bytesAt, hmemory]

private theorem stepLidar (h : Numbered w packets) (data : Option LidarPacket) :
    Numbered (w.stepLidar data) (w.accept (.lidar data) packets) := by
  unfold Transmitter.stepLidar Transmitter.accept
  cases hp : w.lidar with
  | idle =>
    obtain ⟨hpktId, hlen⟩ := h.idle (.inl hp)
    cases data with
    | none => exact h
    | some packet =>
      dsimp only
      split_ifs
      · constructor
        · intro k element hk
          obtain ⟨packet', before, hpacket, hcontent⟩ := h.pushed k element hk
          refine ⟨packet', before, ?_, hcontent⟩
          rw [List.getElem?_append_left (List.getElem?_eq_some_iff.mp hpacket).1, hpacket]
        · intro hw
          rcases hw with hw | hw <;> cases hw
        · intro txBuf packet' hw
          cases hw
          refine ⟨hlen.trans hpktId.symm, ?_, ?_⟩
          · rw [List.length_append, hpktId, List.length_singleton]
          · dsimp only
            rw [hpktId]
            exact List.getElem?_concat_length
        · intro txBuf hw
          rcases hw with hw | hw <;> cases hw
      · exact h
  | copy txBuf packet =>
    obtain ⟨hlen, hcount, hpacket⟩ := h.copy txBuf packet hp
    constructor
    · exact h.pushed
    · intro hw
      rcases hw with hw | hw <;> cases hw
    · intro txBuf' packet' hw
      cases hw
    · intro txBuf' hw
      have heq : txBuf' = txBuf := by
        rcases hw with hw | hw <;> cases hw
        rfl
      subst heq
      dsimp only
      refine ⟨by rw [hlen], hcount, packet, w.memory txBuf', ?_, ?_⟩
      · rw [hlen]
        exact hpacket
      · rw [Transmitter.bytesAt, content, hlen]
        dsimp only
        rw [Function.update_self]
  | acquire txBuf =>
    dsimp only [Transmitter.lock]
    split_ifs
    · refine h.keep rfl rfl ?_ ?_ ?_
      · intro hw
        rcases hw with hw | hw <;> cases hw
      · intro txBuf' packet hw
        cases hw
      · intro txBuf' hw
        have heq : txBuf' = txBuf := by
          rcases hw with hw | hw <;> cases hw
          rfl
        exact ⟨.inl (heq ▸ hp), rfl⟩
    · exact h
  | push txBuf =>
    obtain ⟨hlen, hcount, packet, before, hpacket, hbytes⟩ := h.carried txBuf (.inr hp)
    dsimp only
    split_ifs
    · constructor
      · intro k element hk
        rw [Transmitter.push] at hk
        dsimp only at hk
        rw [List.getElem?_append] at hk
        split at hk
        · exact h.pushed k element hk
        · rename_i hge
          obtain ⟨hlast, rfl⟩ := List.getElem?_eq_some_iff.mp hk
          rw [List.length_singleton] at hlast
          obtain rfl : k = w.pushed.length := by omega
          refine ⟨packet, before, hpacket, ?_⟩
          simp only [List.getElem_singleton]
          exact hbytes
      · intro _
        refine ⟨hcount.symm, ?_⟩
        rw [Transmitter.push]
        dsimp only
        rw [List.length_append, List.length_singleton]
        omega
      · intro txBuf' packet' hw
        cases hw
      · intro txBuf' hw
        rcases hw with hw | hw <;> cases hw
    · refine h.keep rfl rfl ?_ ?_ ?_
      · intro hw
        rcases hw with hw | hw <;> cases hw
      · intro txBuf' packet' hw
        cases hw
      · intro txBuf' hw
        have heq : txBuf' = txBuf := by
          rcases hw with hw | hw <;> cases hw
          rfl
        exact ⟨.inr (heq ▸ hp), rfl⟩
  | unlock =>
    dsimp only
    refine h.keep rfl rfl ?_ ?_ ?_
    · exact fun _ => .inr hp
    · intro txBuf' packet' hw
      cases hw
    · intro txBuf' hw
      rcases hw with hw | hw <;> cases hw

private theorem stepResult (h : Numbered w packets) (howned : w.Owned) (datagram : Option (List SymbolType))
    (hno : w.NoDatagram (.result datagram)) : Numbered (w.stepResult datagram) packets := by
  unfold Transmitter.stepResult
  cases hp : w.result with
  | recv =>
    dsimp only
    split
    · exact h.keep_lidar howned rfl rfl rfl fun _ => rfl
    · refine h.keep_lidar howned rfl rfl rfl ?_
      intro n
      have hne : Pointer.heap n ≠ Pointer.buffer := by
        intro heq
        cases heq
      dsimp only
      rw [Function.update_of_ne hne]
  | acquire =>
    dsimp only [Transmitter.lock]
    split_ifs
    · exact h.keep_lidar howned rfl rfl rfl fun _ => rfl
    · exact h
  | push =>
    dsimp only
    rw [if_neg (Nat.not_lt.mpr (hno hp))]
    exact h.keep_lidar howned rfl rfl rfl fun _ => rfl
  | unlock => exact h.keep_lidar howned rfl rfl rfl fun _ => rfl
  | finished => exact h

private theorem stepMain (h : Numbered w packets) (howned : w.Owned) : Numbered w.stepMain packets := by
  unfold Transmitter.stepMain
  cases w.main <;> dsimp only [Transmitter.lock] <;> (try split) <;>
    exact h.keep_lidar howned rfl rfl rfl fun _ => rfl

/-- Every step keeps the numbering of the packets, unless a datagram enters the queue. -/
theorem step (h : Numbered w packets) (howned : w.Owned) (t : TxTurn) (hno : w.NoDatagram t) :
    Numbered (w.step t) (w.accept t packets) := by
  cases t with
  | lidar data => exact h.stepLidar data
  | result datagram =>
    have haccept : w.accept (.result datagram) packets = packets := by
      unfold Transmitter.accept
      cases w.lidar <;> rfl
    rw [haccept]
    exact h.stepResult howned datagram hno
  | main =>
    have haccept : w.accept .main packets = packets := by
      unfold Transmitter.accept
      cases w.lidar <;> rfl
    rw [haccept]
    exact h.stepMain howned

end Numbered

end Soar.Communication
