import Soar.Communication.Receiver
import Soar.Communication.Decoding

/-! One iteration of `recv`: what entering a frame's batch and collecting its bytes do. -/
namespace Soar.Communication.V2xReceiver
open Soar.Library

variable {mt19937 : Nat → Nat → UInt32}

/-- The receiver takes packets of this size, and `recv_buf` has room for them with their headers. -/
structure Accepts (pktSize : Nat) (rx : V2xReceiver) : Prop where
  pktSize_eq : rx.pktSize = pktSize
  room : pktSize + sizeofCodingHdr ≤ rx.recvBufSize

theorem accepts_new {pktSize slack : Nat} (h : sizeofCodingHdr ≤ slack) : (new pktSize slack).Accepts pktSize :=
  ⟨rfl, Nat.add_le_add_left h pktSize⟩

/-- The other members do not matter. -/
theorem Accepts.congr {pktSize : Nat} {rx rx' : V2xReceiver} (h : rx.Accepts pktSize) (hsize : rx'.pktSize = rx.pktSize)
    (hbuf : rx'.recvBufSize = rx.recvBufSize) : rx'.Accepts pktSize :=
  ⟨hsize.trans h.pktSize_eq, by rw [hbuf]; exact h.room⟩

/-- Whether a header continues the node and batch that the receiver is at. -/
def Continues (rx : V2xReceiver) (hdr : CodingHdr) : Prop :=
  rx.curNodeId = (hdr.nodeId : Nat) ∧ rx.curBatchId = (hdr.batchId : Nat) % 2 ^ 8

instance (rx : V2xReceiver) (hdr : CodingHdr) : Decidable (rx.Continues hdr) := instDecidableAnd

theorem enter_eq (rx : V2xReceiver) (hdr : CodingHdr) :
    rx.enter hdr = (({ rx with nin := hdr.nin, nout := hdr.nout } : V2xReceiver).changeNode hdr.nodeId).changeBatch
      ((hdr.batchId : Nat) % 2 ^ 8) := by
  rw [enter, scanHistory_eq]

/-- Entering touches neither the coder nor the packets. -/
theorem enter_keeps (rx : V2xReceiver) (hdr : CodingHdr) :
    (rx.enter hdr).pktSize = rx.pktSize ∧ (rx.enter hdr).coder = rx.coder ∧
      (rx.enter hdr).inputPkts = rx.inputPkts ∧ (rx.enter hdr).outputPkts = rx.outputPkts ∧
      (rx.enter hdr).curNodeId = (hdr.nodeId : Nat) ∧ (rx.enter hdr).curBatchId = (hdr.batchId : Nat) % 2 ^ 8 := by
  rw [enter_eq, changeBatch, changeNode]
  split_ifs with hn hb hb
  · exact ⟨rfl, rfl, rfl, rfl, rfl, rfl⟩
  · exact ⟨rfl, rfl, rfl, rfl, rfl, (not_not.mp hb).symm⟩
  · exact ⟨rfl, rfl, rfl, rfl, (not_not.mp hn).symm, rfl⟩
  · exact ⟨rfl, rfl, rfl, rfl, (not_not.mp hn).symm, (not_not.mp hb).symm⟩

/-- Nor `recv_buf`. -/
theorem enter_recvBufSize (rx : V2xReceiver) (hdr : CodingHdr) : (rx.enter hdr).recvBufSize = rx.recvBufSize := by
  rw [enter_eq, changeBatch, changeNode]
  split_ifs <;> rfl

theorem Accepts.enter {pktSize : Nat} {rx : V2xReceiver} (h : rx.Accepts pktSize) (hdr : CodingHdr) :
    (rx.enter hdr).Accepts pktSize := by
  obtain ⟨hsize, _⟩ := rx.enter_keeps hdr
  exact h.congr hsize (rx.enter_recvBufSize hdr)

/-- A packet of the current node and batch changes the two counts only. -/
theorem enter_continues {rx : V2xReceiver} {hdr : CodingHdr} (h : rx.Continues hdr) :
    rx.enter hdr = { rx with nin := hdr.nin, nout := hdr.nout } := by
  rw [enter_eq, changeNode, if_neg fun hn => hn h.1.symm, changeBatch, if_neg fun hn => hn h.2.symm]

/-- A new node or batch starts from an empty collection, whatever the history holds. -/
theorem enter_new {rx : V2xReceiver} {hdr : CodingHdr} (h : ¬ rx.Continues hdr) :
    (rx.enter hdr).pktNum = 0 ∧ (rx.enter hdr).decoded = false := by
  rw [enter_eq, changeBatch, changeNode]
  split_ifs with hn hb hb
  · exact ⟨rfl, rfl⟩
  · exact ⟨rfl, rfl⟩
  · exact ⟨rfl, rfl⟩
  · exact absurd ⟨(not_not.mp hn).symm, (not_not.mp hb).symm⟩ h

/-- What the receiver does with a frame of the right size. -/
theorem onFrame_accepted {pktSize : Nat} {rx : V2xReceiver} {frame : Frame} (hrx : rx.Accepts pktSize)
    (h : frame.size = pktSize + sizeofCodingHdr) :
    rx.onFrame mt19937 frame =
      let rx' := ({ rx with seqno := frame.seqno, mcs := frame.mcs } : V2xReceiver).enter (CodingHdr.read frame.bytes)
      if rx'.decoded then some (rx', false) else rx'.collect mt19937 frame.bytes := by
  have hroom : ¬ rx.recvBufSize < frame.size := by
    rw [h]
    exact not_lt.mpr hrx.room
  have hsize : frame.size = rx.pktSize + sizeofCodingHdr := by rw [h, hrx.pktSize_eq]
  rw [onFrame, if_neg hroom]
  exact if_neg fun hn => hn hsize

/-- A frame that is longer than `recv_buf` is written behind its end. -/
theorem onFrame_overlong {rx : V2xReceiver} {frame : Frame} (h : rx.recvBufSize < frame.size) :
    rx.onFrame mt19937 frame = none := if_pos h

/-- Without `sizeofCodingHdr` bytes behind the array the first packet is written behind the end of `recv_buf`. -/
theorem serve_noRoom {pktSize slack : Nat} {frame : Frame} (frames : List Frame) (hslack : slack < sizeofCodingHdr)
    (h : frame.size = pktSize + sizeofCodingHdr) : (new pktSize slack).serve mt19937 (frame :: frames) = none := by
  have hlong : (new pktSize slack).recvBufSize < frame.size := by
    rw [h]
    exact Nat.add_lt_add_left hslack pktSize
  rw [serve, onFrame_overlong hlong]
  rfl

/-- `decode` stays inside its tables if the packets do. -/
theorem decode_some (mt19937 : Nat → Nat → UInt32) (coder : LDPC)
    (inputPkts outputPkts : RowTable kMaxCodingSize Buffer) (numInput pktSize : Nat)
    (hn : numInput ≤ kMaxCodingSize) : ∃ out, coder.decode mt19937 inputPkts outputPkts numInput pktSize = some out ∧
      out.inputPkts = inputPkts := by
  obtain ⟨_, _, out, _, _, _, hdec, hin, _⟩ := decode_spec mt19937 coder inputPkts outputPkts numInput pktSize hn
  exact ⟨out, hdec, hin⟩

/-- The frame is stored behind the collected ones; `done` tells whether a decode succeeded. -/
structure Stored (mt19937 : Nat → Nat → UInt32) (rx : V2xReceiver) (bytes : Buffer) (rx' : V2xReceiver) (done : Bool) :
    Prop where
  pktSize : rx'.pktSize = rx.pktSize
  recvBufSize : rx'.recvBufSize = rx.recvBufSize
  curNodeId : rx'.curNodeId = rx.curNodeId
  curBatchId : rx'.curBatchId = rx.curBatchId
  history : rx'.history = rx.history
  pktNum : rx'.pktNum = rx.pktNum + 1
  decoded : rx'.decoded = (rx.decoded || done)
  inputPkts : rx'.inputPkts.row = Function.update rx.inputPkts.row rx.pktNum
    (memcpy (rx.inputPkts.row rx.pktNum) bytes (rx.pktSize + sizeofCodingHdr))
  waits : rx.pktNum + 1 < ((CodingHdr.read bytes).nin : Nat) → done = false
  tries : ((CodingHdr.read bytes).nin : Nat) ≤ rx.pktNum + 1 → ∃ out,
    rx.coder.decode mt19937 rx'.inputPkts rx.outputPkts (rx.pktNum + 1) rx.pktSize = some out ∧
      done = out.ok ∧ rx'.outputPkts = out.outputPkts

theorem Stored.accepts {rx rx' : V2xReceiver} {bytes : Buffer} {done : Bool} (h : Stored mt19937 rx bytes rx' done)
    {pktSize : Nat} (hrx : rx.Accepts pktSize) : rx'.Accepts pktSize :=
  hrx.congr h.pktSize h.recvBufSize

/-- A packet for which there is room is stored. -/
theorem collect_stored (mt19937 : Nat → Nat → UInt32) (rx : V2xReceiver) (bytes : Buffer)
    (hn : rx.pktNum < kMaxCodingSize) :
    ∃ rx' done, rx.collect mt19937 bytes = some (rx', done) ∧ Stored mt19937 rx bytes rx' done := by
  let pkts : RowTable kMaxCodingSize Buffer := ⟨Function.update rx.inputPkts.row rx.pktNum
    (memcpy (rx.inputPkts.row rx.pktNum) bytes (rx.pktSize + sizeofCodingHdr))⟩
  obtain ⟨out, hdec, hin⟩ := decode_some mt19937 rx.coder pkts rx.outputPkts (rx.pktNum + 1) rx.pktSize
    (by omega)
  rw [collect, RowTable.get?_bind hn, RowTable.set?_bind hn]
  dsimp only
  split_ifs with hle
  · rw [hdec, Option.bind_eq_bind, Option.bind_some]
    cases hok : out.ok with
    | true =>
      refine ⟨_, _, rfl, ⟨rfl, rfl, rfl, rfl, rfl, rfl, by simp, by rw [hin], fun hc => by omega, fun _ => ?_⟩⟩
      exact ⟨out, by rw [hin]; exact hdec, hok.symm, rfl⟩
    | false =>
      refine ⟨_, _, rfl, ⟨rfl, rfl, rfl, rfl, rfl, rfl, by simp, by rw [hin], fun hc => by omega, fun _ => ?_⟩⟩
      exact ⟨out, by rw [hin]; exact hdec, hok.symm, rfl⟩
  · exact ⟨_, _, rfl, ⟨rfl, rfl, rfl, rfl, rfl, rfl, by simp, rfl, fun _ => rfl, fun hc => absurd hc hle⟩⟩

/-- With `kMaxCodingSize` packets collected the next one is stored behind the table. -/
theorem collect_full (rx : V2xReceiver) (bytes : Buffer) (hn : kMaxCodingSize ≤ rx.pktNum) :
    rx.collect mt19937 bytes = none := by
  rw [collect, RowTable.get?, if_neg (by omega)]
  rfl

end Soar.Communication.V2xReceiver
