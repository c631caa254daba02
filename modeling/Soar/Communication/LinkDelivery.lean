import Soar.Communication.RawLink

/-! What the files of the receiver hold after any run of the uncoded link. -/
namespace Soar.Communication
open Soar.Library

/-- What stands behind the headers of a frame. -/
def frameData (frame : List UInt8) : List UInt8 := frame.drop V2xSocket.HEADER_LENGTH

/-- The line of a frame, its rate apart. -/
def Tells (frame : List UInt8) (row : Row) : Prop :=
  row.nodeId = ((frameData frame).getD 0 0).toNat ∧ row.pktId = readPktId (fun k => (frameData frame).getD k 0) ∧
    row.seqno = 0

/-- The link after runs without datagrams. -/
structure LinkInv (macAddr : Vector UInt8 6) (mcs : UInt8) (w : RawLink) : Prop where
  owned : w.tx.Owned
  numbered : Numbered w.tx w.packets
  reachable : V2xSocket.Reachable macAddr w.txBuf
  frames : w.air.sent = w.tx.sent.map fun element => V2xSocket.frameHeader macAddr mcs ++ payloadOf element.2
  ordered : w.air.Ordered
  rows : List.Forall₂ Tells w.air.received w.rows
  data : w.dataOut = (w.air.received.map fun frame => (frameData frame).drop sizeofPktHdr).flatten

variable {macAddr : Vector UInt8 6} {mcs : UInt8} {w : RawLink}

@[simp] theorem length_content (packet : LidarPacket) (pktId : Nat) (before : Buffer) :
    (content packet pktId before).length = bufSize + sizeofPktHdr := by
  rw [content, List.length_map, List.length_range]

@[simp] theorem length_payloadOf (bytes : List SymbolType) : (payloadOf bytes).length = bytes.length := by
  rw [payloadOf, List.length_map]

/-- A byte of a packet on its way. -/
theorem payloadOf_content_getD (packet : LidarPacket) (pktId : Nat) (before : Buffer) {k : Nat}
    (hk : k < bufSize + sizeofPktHdr) :
    ((payloadOf (content packet pktId before)).getD k 0).toNat =
      (setPktHdr packet.nodeId pktId (writeBytes sizeofPktHdr packet.bytes before) k).toNat := by
  have hlen : k < (payloadOf (content packet pktId before)).length := by
    rwa [length_payloadOf, length_content]
  rw [← List.getElem_eq_getD (h := hlen)]
  simp only [payloadOf, content, List.getElem_map, List.getElem_range, UInt8.toNat_ofNat']
  exact Nat.mod_eq_of_lt (SymbolType.toNat_lt _)

/-- The header in front of a packet. -/
theorem payloadOf_content_nodeId (packet : LidarPacket) (pktId : Nat) (before : Buffer) :
    ((payloadOf (content packet pktId before)).getD 0 0).toNat = packet.nodeId % 256 := by
  rw [payloadOf_content_getD packet pktId before (by decide)]
  exact SymbolType.toNat_ofNat _

theorem payloadOf_content_pktId (packet : LidarPacket) (pktId : Nat) (before : Buffer) :
    readPktId (fun k => (payloadOf (content packet pktId before)).getD k 0) = pktId % 2 ^ 24 := by
  have hbyte (k : Nat) (hk : k < 3) :
      ((payloadOf (content packet pktId before)).getD (k + 1) 0).toNat = pktId / 2 ^ (8 * k) % 256 := by
    rw [payloadOf_content_getD packet pktId before (by rw [bufSize, sizeofPktHdr]; omega), setPktHdr, writeBytes,
      if_pos (Nat.zero_le _)]
    match k, hk with
    | 0, _ => exact (SymbolType.toNat_ofNat _).trans (by rw [Nat.mul_zero, Nat.pow_zero, Nat.div_one])
    | 1, _ => exact SymbolType.toNat_ofNat _
    | 2, _ => exact SymbolType.toNat_ofNat _
  rw [readPktId, hbyte 0 (by decide), hbyte 1 (by decide), hbyte 2 (by decide)]
  omega

/-- The bytes of the packet behind the header. -/
theorem payloadOf_content_bytes (packet : LidarPacket) (pktId : Nat) (before : Buffer) :
    (payloadOf packet.bytes).take bufSize <+: (payloadOf (content packet pktId before)).drop sizeofPktHdr := by
  rw [List.prefix_iff_getElem?]
  intro k hk
  rw [List.length_take, length_payloadOf] at hk
  have hsize : k + sizeofPktHdr < bufSize + sizeofPktHdr := by omega
  have hbytes : k < packet.bytes.length := by omega
  have hhdr : ∀ k' : Nat, sizeofPktHdr ≤ k' → setPktHdr packet.nodeId pktId
      (writeBytes sizeofPktHdr packet.bytes before) k' = writeBytes sizeofPktHdr packet.bytes before k' := by
    intro k' hk'
    rw [setPktHdr, writeBytes, if_pos (Nat.zero_le _), List.getElem?_eq_none (by simpa [sizeofPktHdr] using hk')]
    rfl
  rw [List.getElem?_drop, Nat.add_comm, List.getElem?_eq_getElem
      (by rw [length_payloadOf, length_content]; exact hsize)]
  simp only [payloadOf, content, List.getElem_map, List.getElem_range, List.getElem_take]
  rw [hhdr _ (Nat.le_add_left _ _), writeBytes, if_pos (Nat.le_add_left _ _), Nat.add_sub_cancel,
    List.getElem?_eq_getElem hbytes]
  rfl

/-- The frame at a place on the air is that of the packet at this place. -/
theorem LinkInv.carries (h : LinkInv macAddr mcs w) {k : Nat} {frame : List UInt8}
    (hframe : w.air.sent[k]? = some frame) :
    ∃ packet before, w.packets[k]? = some packet ∧
      frame = V2xSocket.frameHeader macAddr mcs ++ payloadOf (content packet k before) := by
  rw [h.frames, List.getElem?_map] at hframe
  obtain ⟨element, helement, rfl⟩ := Option.map_eq_some_iff.mp hframe
  have hpushed : w.tx.pushed[k]? = some element := by
    obtain ⟨rest, hrest⟩ := h.owned.integrity.sent
    rw [← hrest, List.getElem?_append_left (List.getElem?_eq_some_iff.mp helement).1, helement]
  obtain ⟨packet, before, hpacket, hcontent⟩ := h.numbered.pushed k element hpushed
  exact ⟨packet, before, hpacket, by rw [hcontent]⟩

theorem frameData_frame (payload : List UInt8) : frameData (V2xSocket.frameHeader macAddr mcs ++ payload) = payload :=
  List.drop_left' (V2xSocket.length_frameHeader macAddr mcs)

theorem LinkInv.length_frameData (h : LinkInv macAddr mcs w) {frame : List UInt8} (hframe : frame ∈ w.air.sent) :
    frame = V2xSocket.frameHeader macAddr mcs ++ frameData frame ∧
      (frameData frame).length = bufSize + sizeofPktHdr := by
  obtain ⟨k, hk⟩ := List.mem_iff_getElem?.mp hframe
  obtain ⟨packet, before, -, rfl⟩ := h.carries hk
  rw [frameData_frame]
  exact ⟨rfl, by rw [length_payloadOf, length_content]⟩

private theorem recv_frame (radiotap : V2xSocket.Radiotap) (fcs : Vector UInt8 4) (behind : Nat → UInt8)
    {payload : List UInt8} (hpayload : payload.length = bufSize + sizeofPktHdr) :
    let bytes := V2xSocket.overTheAir radiotap fcs (V2xSocket.frameHeader macAddr mcs ++ payload)
    ∃ r, V2xSocket.recv 1 ⟨UInt32.ofNat bytes.length, UInt32.ofNat bytes.length⟩
        (fun k => (bytes[k]?).getD (behind k)) (.ofNat (bufSize + sizeofPktHdr)) = .ok r ∧
      r.data = payload ∧ r.seqno = 0 := by
  intro bytes
  have hholds : V2xSocket.Holds (fun k => (bytes[k]?).getD (behind k)) bytes := by
    intro k hk
    dsimp only
    rw [List.getElem?_eq_getElem hk, Option.getD_some]
  have hradiotap : radiotap.bytes.length < 2 ^ 16 := by
    rw [← radiotap.itLen_eq]
    exact UInt16.toNat_lt _
  have hlen : (UInt32.ofNat bytes.length).toNat = bytes.length := by
    have hbytes : bytes.length = radiotap.bytes.length + 32 + payload.length :=
      V2xSocket.length_overTheAir radiotap fcs macAddr mcs payload
    have hmax : bufSize + sizeofPktHdr < 2 ^ 16 := by decide
    rw [UInt32.toNat_ofNat']
    omega
  have hmax : payload.length ≤ (UInt64.ofNat (bufSize + sizeofPktHdr)).toNat := hpayload.le
  let pcapHdr : V2xSocket.PcapPkthdr := ⟨UInt32.ofNat bytes.length, UInt32.ofNat bytes.length⟩
  have hhdr : pcapHdr.len.toNat = bytes.length := hlen
  obtain ⟨r, hr, hdata, -, hseqno⟩ := V2xSocket.recv_overTheAir hholds hhdr hmax
  exact ⟨r, hr, hdata, hseqno⟩

/-- Before the first step nothing has been sent. -/
theorem linkInv_start (memory : Pointer → Buffer) (mem : V2xSocket.TxBuf) (buf : Nat → UInt8) :
    LinkInv macAddr mcs { tx := { memory := memory }, txBuf := V2xSocket.initTx mem macAddr, buf := buf } where
  owned := Transmitter.owned_start memory
  numbered := Numbered.start memory
  reachable := V2xSocket.Reachable.init mem
  frames := rfl
  ordered := Channel.ordered_start
  rows := List.Forall₂.nil
  data := rfl

private theorem sent_step {tx : Transmitter} {t : TxTurn} (h : t = .main → ∀ buf, tx.main ≠ .send buf) :
    (tx.step t).sent = tx.sent := by
  cases t with
  | lidar data =>
    change (tx.stepLidar data).sent = tx.sent
    unfold Transmitter.stepLidar
    cases tx.lidar <;> dsimp only [Transmitter.lock] <;> (try split) <;> (try split_ifs) <;> rfl
  | result datagram =>
    change (tx.stepResult datagram).sent = tx.sent
    unfold Transmitter.stepResult
    cases tx.result <;> dsimp only [Transmitter.lock] <;> (try split) <;> rfl
  | main =>
    change tx.stepMain.sent = tx.sent
    unfold Transmitter.stepMain
    cases hp : tx.main with
    | send buf => exact absurd hp (h rfl buf)
    | acquire | pop | unlock _ | delete _ => dsimp only [Transmitter.lock] <;> (try split) <;> rfl

private theorem sent_step_send {tx : Transmitter} {buf : Pointer} (h : tx.main = .send buf) :
    (tx.step .main).sent = tx.sent ++ [(buf, tx.bytesAt buf)] := by
  change tx.stepMain.sent = _
  unfold Transmitter.stepMain
  rw [h]

private theorem accept_main (tx : Transmitter) (packets : List LidarPacket) : tx.accept .main packets = packets := by
  unfold Transmitter.accept
  cases tx.lidar <;> rfl

private theorem LinkInv.quiet (h : LinkInv macAddr mcs w) {t : TxTurn} (hno : w.tx.NoDatagram t)
    (hquiet : t = .main → ∀ buf, w.tx.main ≠ .send buf) :
    LinkInv macAddr mcs { w with tx := w.tx.step t, packets := w.tx.accept t w.packets } where
  owned := h.owned.step t hno
  numbered := h.numbered.step h.owned t hno
  reachable := h.reachable
  frames := by
    rw [sent_step hquiet]
    exact h.frames
  ordered := h.ordered
  rows := h.rows
  data := h.data

/-- A step of the sender keeps the invariant, unless a datagram enters the queue. -/
theorem LinkInv.stepTx (h : LinkInv macAddr mcs w) (t : TxTurn) (injected : Int)
    (hno : w.sending → w.tx.NoDatagram t) : LinkInv macAddr mcs (w.stepTx mcs t injected) := by
  unfold RawLink.stepTx
  split_ifs with hsending
  · split
    · rename_i buf hmain
      have hlen : (payloadOf (w.tx.bytesAt buf)).length = bufSize + sizeofPktHdr := by
        rw [length_payloadOf, Transmitter.bytesAt, List.length_map, List.length_range]
      have hfit : V2xSocket.HEADER_LENGTH + (payloadOf (w.tx.bytesAt buf)).length ≤ V2xSocket.MAX_PACKET_SIZE := by
        rw [hlen]
        decide
      have hsend := V2xSocket.send_frame h.reachable (payloadOf (w.tx.bytesAt buf)) mcs injected hfit
      have hnumbered := h.numbered.step h.owned .main (hno hsending)
      rw [accept_main] at hnumbered
      by_cases hinjected : injected = V2xSocket.HEADER_LENGTH + (payloadOf (w.tx.bytesAt buf)).length
      · rw [if_pos hinjected] at hsend
        have hreachable := V2xSocket.Reachable.sent h.reachable hsend
        rw [hsend]
        constructor
        · exact h.owned.step .main (hno hsending)
        · exact hnumbered
        · exact hreachable
        · dsimp only [Channel.send]
          rw [sent_step_send hmain, List.map_append, ← h.frames, List.map_singleton]
        · exact h.ordered.send _
        · exact h.rows
        · exact h.data
      · rw [if_neg hinjected] at hsend
        rw [hsend]
        exact ⟨h.owned, h.numbered, .threw h.reachable hsend, h.frames, h.ordered, h.rows, h.data⟩
    · rename_i hquiet
      apply h.quiet (hno hsending)
      rintro rfl buf hmain
      exact hquiet buf rfl hmain
  · exact h

/-- A step of the receiver keeps the invariant. -/
theorem LinkInv.stepRx (h : LinkInv macAddr mcs w) (radiotap : V2xSocket.Radiotap) (fcs : Vector UInt8 4)
    (behind : Nat → UInt8) : LinkInv macAddr mcs (w.stepRx radiotap fcs behind) := by
  unfold RawLink.stepRx
  split_ifs
  · cases hreceive : w.air.receive with
    | none => exact h
    | some arrival =>
      obtain ⟨frame, air⟩ := arrival
      obtain ⟨rest, hflight, rfl⟩ := Channel.receive_eq_some hreceive
      have hmem : frame ∈ w.air.sent := by
        apply h.ordered.sublist.subset
        rw [hflight]
        exact List.mem_append_right _ (List.mem_cons_self ..)
      obtain ⟨hframe, hlen⟩ := h.length_frameData hmem
      obtain ⟨r, hr, hdata, hseqno⟩ := @recv_frame macAddr mcs radiotap fcs behind _ hlen
      rw [← hframe] at hr
      dsimp only
      rw [hr]
      -- within the data of the frame the buffer holds them
      have hbuf (k : Nat) (hk : k < bufSize + sizeofPktHdr) :
          (r.data[k]?).getD (w.buf k) = (frameData frame).getD k 0 := by
        rw [hdata, List.getD_eq_getElem?_getD, List.getElem?_eq_getElem (hlen.symm ▸ hk)]
        rfl
      constructor
      · exact h.owned
      · exact h.numbered
      · exact h.reachable
      · exact h.frames
      · exact h.ordered.receive hreceive
      · dsimp only [RawLink.write]
        apply List.rel_append h.rows
        refine List.Forall₂.cons ⟨?_, ?_, hseqno⟩ List.Forall₂.nil
        · dsimp only
          rw [hbuf 0 (by decide)]
        · simp only [readPktId, hbuf 1 (by decide), hbuf 2 (by decide), hbuf 3 (by decide)]
      · dsimp only [RawLink.write]
        rw [List.map_append, List.flatten_append, ← h.data, List.map_singleton, List.flatten_singleton]
        apply congrArg (w.dataOut ++ ·)
        apply List.ext_getElem
        · rw [List.length_map, List.length_range, List.length_drop, hlen, Nat.add_sub_cancel]
        · intro k hk hk'
          rw [List.length_map, List.length_range] at hk
          rw [List.getElem_map, List.getElem_range, List.getElem_drop, hbuf _ (by omega), List.getElem_eq_getD]
  · exact h

/-- Every step of the link keeps the invariant, unless a datagram enters the queue. -/
theorem LinkInv.step (h : LinkInv macAddr mcs w) (t : LinkTurn) (hno : w.NoDatagram t) :
    LinkInv macAddr mcs (w.step mcs t) := by
  cases t with
  | tx t injected => exact h.stepTx t injected hno
  | lose k =>
    have hlose : (w.air.lose k).sent = w.air.sent ∧ (w.air.lose k).received = w.air.received := by
      rw [Channel.lose]
      split_ifs <;> exact ⟨rfl, rfl⟩
    refine ⟨h.owned, h.numbered, h.reachable, hlose.1.trans h.frames, h.ordered.lose k, ?_, ?_⟩
    · change List.Forall₂ Tells (w.air.lose k).received w.rows
      rw [hlose.2]
      exact h.rows
    · change w.dataOut = ((w.air.lose k).received.map fun frame => (frameData frame).drop sizeofPktHdr).flatten
      rw [hlose.2]
      exact h.data
  | rx radiotap fcs behind => exact h.stepRx radiotap fcs behind

/-- The line of a packet of the lidar at its place. -/
def RowOf (packets : List LidarPacket) (k : Nat) (row : Row) : Prop :=
  ∃ packet, packets[k]? = some packet ∧ row.nodeId = packet.nodeId % 256 ∧ row.pktId = k % 2 ^ 24 ∧ row.seqno = 0

/-- The data of a packet of the lidar at its place. -/
def ChunkOf (packets : List LidarPacket) (k : Nat) (chunk : List UInt8) : Prop :=
  ∃ packet, packets[k]? = some packet ∧ chunk.length = bufSize ∧ (payloadOf packet.bytes).take bufSize <+: chunk

/-- The files hold the packets at the places `ids`, in their order. -/
structure Delivered (w : RawLink) (ids : List Nat) : Prop where
  increasing : ids.Pairwise (· < ·)
  rows : List.Forall₂ (RowOf w.packets) ids w.rows
  data : ∃ chunks, w.dataOut = chunks.flatten ∧ List.Forall₂ (ChunkOf w.packets) ids chunks
  count : w.rows.length + w.air.inFlight.length + w.air.lost = w.tx.sent.length
  complete : w.air.lost = 0 → ids = List.range w.rows.length
  column : w.packets.length ≤ 2 ^ 24 → w.rows.map Row.pktId = ids

theorem LinkInv.rowOf (h : LinkInv macAddr mcs w) {k : Nat} {frame : List UInt8} {row : Row}
    (hframe : w.air.sent[k]? = some frame) (hrow : Tells frame row) : RowOf w.packets k row := by
  obtain ⟨packet, before, hpacket, rfl⟩ := h.carries hframe
  obtain ⟨hnode, hpkt, hseqno⟩ := hrow
  rw [frameData_frame] at hnode hpkt
  rw [payloadOf_content_nodeId] at hnode
  rw [payloadOf_content_pktId] at hpkt
  exact ⟨packet, hpacket, hnode, hpkt, hseqno⟩

theorem LinkInv.chunkOf (h : LinkInv macAddr mcs w) {k : Nat} {frame : List UInt8}
    (hframe : w.air.sent[k]? = some frame) : ChunkOf w.packets k ((frameData frame).drop sizeofPktHdr) := by
  obtain ⟨packet, before, hpacket, rfl⟩ := h.carries hframe
  rw [frameData_frame]
  refine ⟨packet, hpacket, ?_, payloadOf_content_bytes packet k before⟩
  rw [List.length_drop, length_payloadOf, length_content, Nat.add_sub_cancel]

private theorem forall₂_places {ids : List Nat} {frames : List (List UInt8)} {α : Type} {rows : List α}
    {R : List UInt8 → α → Prop} {S : Nat → α → Prop} {sent : List (List UInt8)}
    (hids : ids.map (fun k => sent[k]?) = frames.map some) (hrows : List.Forall₂ R frames rows)
    (hRS : ∀ k frame row, sent[k]? = some frame → R frame row → S k row) : List.Forall₂ S ids rows := by
  induction hrows generalizing ids with
  | nil =>
    obtain rfl := List.map_eq_nil_iff.mp hids
    exact List.Forall₂.nil
  | cons hrow _ ih =>
    obtain ⟨k, rest, rfl, hk, hrest⟩ := List.map_eq_cons_iff.mp hids
    exact List.Forall₂.cons (hRS _ _ _ hk hrow) (ih hrest)

private theorem map_pktId_of_rowOf {packets : List LidarPacket} (hcount : packets.length ≤ 2 ^ 24) {ids : List Nat}
    {rows : List Row} (h : List.Forall₂ (RowOf packets) ids rows) : rows.map Row.pktId = ids := by
  induction h with
  | nil => rfl
  | cons hrow _ ih =>
    obtain ⟨packet, hpacket, -, hpktId, -⟩ := hrow
    have hlt := (List.getElem?_eq_some_iff.mp hpacket).1
    rw [List.map_cons, ih, hpktId, Nat.mod_eq_of_lt (hlt.trans_le hcount)]

theorem LinkInv.delivered (h : LinkInv macAddr mcs w) : ∃ ids, Delivered w ids := by
  obtain ⟨ids, hincreasing, hids, hcomplete⟩ := h.ordered.places
  have hrows : List.Forall₂ (RowOf w.packets) ids w.rows :=
    forall₂_places hids h.rows fun k frame row hframe hrow => h.rowOf hframe hrow
  have hlen : w.air.received.length = w.rows.length := h.rows.length_eq
  refine ⟨ids, hincreasing, hrows, ⟨_, h.data, ?_⟩, ?_, ?_, fun hcount => map_pktId_of_rowOf hcount hrows⟩
  · have hchunks : List.Forall₂ (fun frame chunk => chunk = (frameData frame).drop sizeofPktHdr) w.air.received
        (w.air.received.map fun frame => (frameData frame).drop sizeofPktHdr) := by
      rw [List.forall₂_map_right_iff]
      exact List.forall₂_same.mpr fun _ _ => rfl
    apply forall₂_places hids hchunks
    rintro k frame _ hframe rfl
    exact h.chunkOf hframe
  · have hcount := h.ordered.count
    rw [h.frames, List.length_map, hlen] at hcount
    exact hcount
  · rw [← hlen]
    exact hcomplete

theorem examplePacket_fits : sizeofPktHdr + [SymbolType.ofNat 9].length ≤ MAX_PACKET_SIZE := by decide

private def linkPacket : LidarPacket := ⟨kExtendCartesian, 7, [SymbolType.ofNat 9], examplePacket_fits⟩

theorem linkRadiotap_room : 8 ≤ (List.replicate 2 (0 : UInt8) ++ 8 :: List.replicate 5 0).length := by decide

theorem linkRadiotap_itLen :
    (V2xSocket.itLen fun k => (List.replicate 2 (0 : UInt8) ++ 8 :: List.replicate 5 0).getD k 0).toNat =
      (List.replicate 2 (0 : UInt8) ++ 8 :: List.replicate 5 0).length := by decide

private def linkRadiotap : V2xSocket.Radiotap := ⟨_, linkRadiotap_room, linkRadiotap_itLen⟩

/-- The packet is copied, queued, sent and received. -/
private def linkTurns : List LinkTurn :=
  [.tx (.lidar (some linkPacket)) 0, .tx (.lidar none) 0, .tx (.lidar none) 0, .tx (.lidar none) 0, .tx (.lidar none) 0,
    .tx .main 0, .tx .main 0, .tx .main 0, .tx .main 1405, .rx linkRadiotap (Vector.replicate 4 0) fun _ => 0]

private def linkStart : RawLink where
  tx := { memory := fun _ _ => 0 }
  txBuf := V2xSocket.initTx (Vector.replicate _ 0) (Vector.replicate 6 0)
  buf := fun _ => 0

end Soar.Communication
