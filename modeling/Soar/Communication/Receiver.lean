import Soar.Communication.LDPC

/-! `v2x_receiver.h` and `v2x_receiver.cpp`. The constructor allocates `recv_buf` without the header that an accepted
frame also brings; how far the block that the allocator hands out reaches beyond what was asked for is a parameter. -/
namespace Soar.Communication
open Soar.Library

def kMaxHistorySize : Nat := 5

/-- What one `sock->recv` delivers: the bytes, their number and the radio fields. -/
structure Frame where
  bytes : Buffer
  size : Nat
  seqno : Nat
  mcs : Nat

/-- `curBatchId` and the entries of `history` are `uint8_t`; `curNodeId` is an `int`. Of `recv_buf` the state holds
how many bytes may be written to it. -/
structure V2xReceiver where
  pktSize : Nat
  nin : Nat
  nout : Nat
  coder : LDPC
  inputPkts : RowTable kMaxCodingSize Buffer
  outputPkts : RowTable kMaxCodingSize Buffer
  seqno : Nat
  mcs : Nat
  recvBufSize : Nat
  curBatchId : Nat
  curNodeId : Int
  pktNum : Nat
  decoded : Bool
  history : List Nat

namespace V2xReceiver

/-- The constructor; members it does not set are 0. The array `new char[pktSize]` is followed by `slack` bytes that
belong to nothing else. -/
def new (pktSize slack : Nat) : V2xReceiver where
  pktSize := pktSize
  nin := 0
  nout := 0
  coder := LDPC.new
  inputPkts := newMat kMaxCodingSize
  outputPkts := newMat kMaxCodingSize
  seqno := 0
  mcs := 0
  recvBufSize := pktSize + slack
  curBatchId := 2 ^ 8 - 1
  curNodeId := -1
  pktNum := 0
  decoded := false
  history := []

/-- `if (hdr->nodeId != curNodeId)`. -/
def changeNode (rx : V2xReceiver) (nodeId : Nat) : V2xReceiver :=
  if (nodeId : Int) ≠ rx.curNodeId then
    { rx with curNodeId := nodeId, curBatchId := 2 ^ 8 - 1, pktNum := 0, decoded := false, history := [] }
  else rx

/-- `for (auto i : history)`: the `continue` in it goes on with the next entry. -/
def scanHistory (rx : V2xReceiver) (batchId : Nat) : V2xReceiver :=
  rx.history.foldl (fun rx i => if batchId = i then rx else rx) rx

/-- `if (batchId != curBatchId)`. -/
def changeBatch (rx : V2xReceiver) (batchId : Nat) : V2xReceiver :=
  if batchId ≠ rx.curBatchId then
    let history := rx.history ++ [rx.curBatchId]
    let history := if kMaxHistorySize ≤ history.length then history.tail else history
    { rx with history := history, curBatchId := batchId, decoded := false, pktNum := 0 }
  else rx

/-- What happens to an accepted frame up to `if (decoded)`. -/
def enter (rx : V2xReceiver) (hdr : CodingHdr) : V2xReceiver :=
  let batchId := (hdr.batchId : Nat) % 2 ^ 8
  let rx := { rx with nin := hdr.nin, nout := hdr.nout }
  ((rx.changeNode hdr.nodeId).scanHistory batchId).changeBatch batchId

section
variable (mt19937 : Nat → Nat → UInt32)

/-- From the `memcpy` on; `true` stands for the `break`. Fails where a row index leaves its table. -/
def collect (rx : V2xReceiver) (bytes : Buffer) : Option (V2xReceiver × Bool) := do
  let pkt ← rx.inputPkts.get? rx.pktNum
  let inputPkts ← rx.inputPkts.set? rx.pktNum (memcpy pkt bytes (rx.pktSize + sizeofCodingHdr))
  let rx := { rx with inputPkts := inputPkts, pktNum := rx.pktNum + 1 }
  if ((CodingHdr.read bytes).nin : Nat) ≤ rx.pktNum then
    let out ← rx.coder.decode mt19937 rx.inputPkts rx.outputPkts rx.pktNum rx.pktSize
    let rx := { rx with coder := out.coder, inputPkts := out.inputPkts, outputPkts := out.outputPkts }
    if out.ok then some ({ rx with decoded := true }, true) else some (rx, false)
  else some (rx, false)

/-- One iteration of the loop in `recv`. The socket copies the whole frame to `recv_buf`, which fails where it is
too short. -/
def onFrame (rx : V2xReceiver) (frame : Frame) : Option (V2xReceiver × Bool) :=
  if rx.recvBufSize < frame.size then none
  else
    let rx := { rx with seqno := frame.seqno, mcs := frame.mcs }
    if frame.size ≠ rx.pktSize + sizeofCodingHdr then some (rx, false)
    else
      let rx := rx.enter (CodingHdr.read frame.bytes)
      if rx.decoded then some (rx, false) else rx.collect mt19937 frame.bytes

/-- `recv` over the frames that the socket delivers: with the frames left over where it
returns, without where it still waits. -/
def recv : V2xReceiver → List Frame → Option (V2xReceiver × Option (List Frame))
  | rx, [] => some (rx, none)
  | rx, frame :: frames => do
    let (rx, done) ← rx.onFrame mt19937 frame
    if done then some (rx, some frames) else recv rx frames

/-- The output packets returned by successive calls of `recv`, at most `calls` of them. -/
def recvCalls : Nat → V2xReceiver → List Frame → Option (V2xReceiver × List (RowTable kMaxCodingSize Buffer))
  | 0, rx, _ => some (rx, [])
  | calls + 1, rx, frames => do
    match ← recv mt19937 rx frames with
    | (rx, none) => some (rx, [])
    | (rx, some rest) =>
      let (rx', outs) ← recvCalls calls rx rest
      some (rx', rx.outputPkts :: outs)

/-- All calls of `recv` that the frames serve, frame by frame. -/
def serve : V2xReceiver → List Frame → Option (V2xReceiver × List (RowTable kMaxCodingSize Buffer))
  | rx, [] => some (rx, [])
  | rx, frame :: frames => do
    let (rx, done) ← rx.onFrame mt19937 frame
    let (rx', outs) ← serve rx frames
    some (rx', if done then rx.outputPkts :: outs else outs)

end

variable {mt19937 : Nat → Nat → UInt32}

/-- The loop over `history` has no effect. -/
theorem scanHistory_eq (rx : V2xReceiver) (batchId : Nat) : rx.scanHistory batchId = rx := by
  have h (history : List Nat) : history.foldl (fun rx i => if batchId = i then rx else rx) rx = rx := by
    induction history with
    | nil => rfl
    | cons i history ih => rw [List.foldl_cons, ite_self, ih]
  exact h rx.history

private theorem recv_rest (frames : List Frame) (rx rx' : V2xReceiver) (rest : List Frame)
    (h : recv mt19937 rx frames = some (rx', some rest)) : rest.length < frames.length := by
  induction frames generalizing rx with
  | nil => cases h
  | cons frame frames ih =>
    rw [recv, Option.bind_eq_bind] at h
    obtain ⟨⟨rx₁, done⟩, _, h⟩ := Option.bind_eq_some_iff.mp h
    cases done with
    | true =>
      cases h
      exact Nat.lt_succ_self _
    | false => exact Nat.lt_succ_of_lt (ih rx₁ h)

private theorem serve_recv (frames : List Frame) (rx : V2xReceiver) :
    serve mt19937 rx frames = (recv mt19937 rx frames).bind fun r => match r with
      | (rx', none) => some (rx', [])
      | (rx', some rest) => (serve mt19937 rx' rest).bind fun r => some (r.1, rx'.outputPkts :: r.2) := by
  induction frames generalizing rx with
  | nil => rfl
  | cons frame frames ih =>
    rw [serve, recv]
    cases hf : rx.onFrame mt19937 frame with
    | none => rfl
    | some r =>
      obtain ⟨rx₁, done⟩ := r
      cases done with
      | true => rfl
      | false =>
        simp only [Option.bind_eq_bind, Option.bind_some, Bool.false_eq_true, if_false]
        rw [← ih rx₁]
        cases serve mt19937 rx₁ frames <;> rfl

/-- Enough successive calls of `recv` return what `serve` lists. -/
theorem recvCalls_eq_serve (calls : Nat) (frames : List Frame) (rx : V2xReceiver) (h : frames.length < calls) :
    recvCalls mt19937 calls rx frames = serve mt19937 rx frames := by
  induction calls generalizing rx frames with
  | zero => omega
  | succ calls ih =>
    rw [serve_recv, recvCalls, Option.bind_eq_bind]
    cases hr : recv mt19937 rx frames with
    | none => rfl
    | some r =>
      obtain ⟨rx', rest⟩ := r
      cases rest with
      | none => rfl
      | some rest =>
        have hlt := recv_rest frames rx rx' rest hr
        simp only [Option.bind_some, Option.bind_eq_bind]
        rw [ih rest rx' (by omega)]

/-- Serving two lists of frames one after the other. -/
theorem serve_append (frames frames' : List Frame) (rx : V2xReceiver) :
    serve mt19937 rx (frames ++ frames') = (serve mt19937 rx frames).bind fun r =>
      (serve mt19937 r.1 frames').bind fun r' => some (r'.1, r.2 ++ r'.2) := by
  induction frames generalizing rx with
  | nil =>
    rw [List.nil_append, serve, Option.bind_some]
    cases serve mt19937 rx frames' <;> rfl
  | cons frame frames ih =>
    rw [List.cons_append, serve, serve]
    cases rx.onFrame mt19937 frame with
    | none => rfl
    | some r =>
      simp only [Option.bind_eq_bind, Option.bind_some]
      rw [ih]
      cases serve mt19937 r.1 frames with
      | none => rfl
      | some r₁ =>
        simp only [Option.bind_some]
        cases serve mt19937 r₁.1 frames' with
        | none => rfl
        | some r₂ =>
          simp only [Option.bind_some]
          split <;> rfl

/-- The frame after a run of frames. -/
theorem serve_snoc {frames : List Frame} {frame : Frame} {rx rx₁ rx₂ : V2xReceiver} {done : Bool}
    {outs : List (RowTable kMaxCodingSize Buffer)} (h : serve mt19937 rx frames = some (rx₁, outs))
    (hf : rx₁.onFrame mt19937 frame = some (rx₂, done)) :
    serve mt19937 rx (frames ++ [frame]) = some (rx₂, if done then outs ++ [rx₂.outputPkts] else outs) := by
  rw [serve_append, h, Option.bind_some, serve, hf]
  cases done with
  | true => rfl
  | false => exact congrArg (fun o => some (rx₂, o)) (List.append_nil outs)

/-- A run that ends with this frame. -/
theorem serve_concat {frames : List Frame} {frame : Frame} {rx rx₂ : V2xReceiver}
    {outs : List (RowTable kMaxCodingSize Buffer)} (h : serve mt19937 rx (frames ++ [frame]) = some (rx₂, outs)) :
    ∃ rx₁ outs₁ done, serve mt19937 rx frames = some (rx₁, outs₁) ∧ rx₁.onFrame mt19937 frame = some (rx₂, done) := by
  rw [serve_append] at h
  obtain ⟨⟨rx₁, outs₁⟩, h₁, h⟩ := Option.bind_eq_some_iff.mp h
  obtain ⟨⟨rx', outs'⟩, h₂, h⟩ := Option.bind_eq_some_iff.mp h
  cases h
  rw [serve, Option.bind_eq_bind] at h₂
  obtain ⟨⟨rx'', done⟩, hf, h₂⟩ := Option.bind_eq_some_iff.mp h₂
  cases h₂
  exact ⟨rx₁, outs₁, done, h₁, hf⟩

end V2xReceiver
end Soar.Communication
