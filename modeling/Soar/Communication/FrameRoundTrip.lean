import Soar.Communication.V2xSocket

/-! A frame from `send` over the air to `recv`. The driver of the receiver replaces the radiotap header and
appends a frame check sequence. -/
namespace Soar.Communication.V2xSocket

theorem take_patch {bytes src : List UInt8} {k m : Nat} (h : k + src.length ≤ m) (hb : m ≤ bytes.length) :
    (patch bytes k src).take m = patch (bytes.take m) k src := by
  have hk : (bytes.take k).length = k := List.length_take_of_le (by omega)
  have hfront : (bytes.take k).take m = bytes.take k := List.take_of_length_le (by omega)
  have hsrc : src.take (m - k) = src := List.take_of_length_le (by omega)
  have hrest : m - k - src.length = m - (k + src.length) := by omega
  rw [patch, patch, List.take_append, List.take_append, hk, hfront, hsrc, hrest, List.take_take,
    Nat.min_eq_left (by omega), List.drop_take]

/-- Up to the end of what was written there is only what stood before it and what was written. -/
theorem take_patch_end {bytes : List UInt8} (src : List UInt8) {k : Nat} (h : k ≤ bytes.length) :
    (patch bytes k src).take (k + src.length) = bytes.take k ++ src := by
  have hk : (bytes.take k).length = k := List.length_take_of_le h
  rw [patch, ← List.append_assoc]
  exact List.take_left' (by rw [List.length_append, hk])

theorem take_patch_start {bytes : List UInt8} (src : List UInt8) {k : Nat} (h : k ≤ bytes.length) :
    (patch bytes k src).take k = bytes.take k := by
  rw [patch]
  exact List.take_left' (List.length_take_of_le h)

/-- The 802.11 header with the address of the sender as transmitter and as source. -/
def ieee80211Of (macAddr : Vector UInt8 6) : List UInt8 :=
  ieee80211Header.take TX_MAC ++ macAddr.toList ++ macAddr.toList ++ [0x00, 0x00]

/-- What stands before the payload in every frame of a sender. -/
def frameHeader (macAddr : Vector UInt8 6) (dataRate : UInt8) : List UInt8 :=
  radiotapHeader.set RATE_OFFSET dataRate ++ ieee80211Of macAddr ++ llcHeader

@[simp] theorem length_ieee80211Of (macAddr : Vector UInt8 6) : (ieee80211Of macAddr).length = 24 := by
  simp [ieee80211Of, ieee80211Header, TX_MAC]

@[simp] theorem length_frameHeader (macAddr : Vector UInt8 6) (dataRate : UInt8) :
    (frameHeader macAddr dataRate).length = HEADER_LENGTH := by
  simp [frameHeader, HEADER_LENGTH, ieee80211Header, Nat.add_assoc]

theorem frameHeader_set (macAddr : Vector UInt8 6) (dataRate dataRate' : UInt8) :
    (frameHeader macAddr dataRate).set RATE_OFFSET dataRate' = frameHeader macAddr dataRate' := rfl

theorem drop_frameHeader (macAddr : Vector UInt8 6) (dataRate : UInt8) :
    (frameHeader macAddr dataRate).drop radiotapHeader.length = ieee80211Of macAddr ++ llcHeader := rfl

private theorem patch_addresses (macAddr : Vector UInt8 6) :
    patch (patch (radiotapHeader ++ ieee80211Header) 21 macAddr.toList) 27 macAddr.toList =
      radiotapHeader ++ ieee80211Of macAddr := by
  obtain ⟨⟨bytes⟩, h⟩ := macAddr
  match bytes, h with
  | [_, _, _, _, _, _], _ => rfl

theorem take_initTx (mem : TxBuf) (macAddr : Vector UInt8 6) :
    (initTx mem macAddr).toList.take HEADER_LENGTH = frameHeader macAddr MGN_24M := by
  let radiotap := memcpy mem 0 radiotapHeader (by decide)
  let ieee80211 := memcpy radiotap 11 ieee80211Header (by decide)
  have hmac : macAddr.toList.length = 6 := Vector.length_toList
  let tx := memcpy ieee80211 21 macAddr.toList (by rw [hmac]; decide)
  let src := memcpy tx 27 macAddr.toList (by rw [hmac]; decide)
  have hlen (buf : TxBuf) : buf.toList.length = 1510 := Vector.length_toList
  have hradiotap : radiotap.toList.take 11 = radiotapHeader :=
    take_patch_end radiotapHeader (Nat.zero_le mem.toList.length)
  have hieee : ieee80211.toList.take 35 = radiotapHeader ++ ieee80211Header := by
    rw [← hradiotap]
    exact take_patch_end ieee80211Header (k := 11) (by rw [hlen]; omega)
  have htx : tx.toList.take 35 = patch (radiotapHeader ++ ieee80211Header) 21 macAddr.toList := by
    rw [← hieee]
    exact take_patch (by omega) (by rw [hlen]; omega)
  have hsrc : src.toList.take 35 = radiotapHeader ++ ieee80211Of macAddr := by
    rw [← patch_addresses, ← htx]
    exact take_patch (by omega) (by rw [hlen]; omega)
  calc (initTx mem macAddr).toList.take 39 = src.toList.take 35 ++ llcHeader :=
        take_patch_end llcHeader (k := 35) (by rw [hlen]; omega)
    _ = frameHeader macAddr MGN_24M := by rw [hsrc]; rfl

/-- The buffers of a sender after its construction and any calls of `send` that came back. -/
inductive Reachable (macAddr : Vector UInt8 6) : TxBuf → Prop where
  | init (mem : TxBuf) : Reachable macAddr (initTx mem macAddr)
  | sent {txBuf txBuf' : TxBuf} {data frame : List UInt8} {dataRate : UInt8} {injected : Int} :
      Reachable macAddr txBuf → send txBuf data dataRate injected = .sent txBuf' frame → Reachable macAddr txBuf'
  | threw {txBuf txBuf' : TxBuf} {data : List UInt8} {dataRate : UInt8} {injected : Int} :
      Reachable macAddr txBuf → send txBuf data dataRate injected = .threw txBuf' → Reachable macAddr txBuf'

/-- The buffer a call of `send` leaves when its data fit. -/
def filled (txBuf : TxBuf) (data : List UInt8) (dataRate : UInt8)
    (h : HEADER_LENGTH + data.length ≤ MAX_PACKET_SIZE) : TxBuf :=
  memcpy (txBuf.set RATE_OFFSET dataRate rateOffset_lt) HEADER_LENGTH data h

/-- A call that comes back has written data that fit, and its frame is the front of the buffer. -/
theorem send_of_fits (txBuf : TxBuf) (data : List UInt8) (dataRate : UInt8) (injected : Int)
    (h : HEADER_LENGTH + data.length ≤ MAX_PACKET_SIZE) :
    send txBuf data dataRate injected =
      if injected = HEADER_LENGTH + data.length then
        .sent (filled txBuf data dataRate h) ((filled txBuf data dataRate h).toList.take (HEADER_LENGTH + data.length))
      else .threw (filled txBuf data dataRate h) := by
  have hmax : (HEADER_LENGTH + data.length : Int) ≤ MAX_PACKET_SIZE := by exact_mod_cast h
  have hbound : MAX_PACKET_SIZE < 2 ^ 31 := by rw [MAX_PACKET_SIZE]; omega
  have htotal : Int.bmod (HEADER_LENGTH + data.length) (2 ^ 32) = HEADER_LENGTH + data.length :=
    Int.bmod_eq_of_le_mul_two (by omega) (by omega)
  have hnat : (HEADER_LENGTH + data.length : Int).toNat = HEADER_LENGTH + data.length := by omega
  have htaken : Int.bmod (HEADER_LENGTH + data.length) (2 ^ 32) ≤ MAX_PACKET_SIZE := by rw [htotal]; exact hmax
  unfold send
  rw [if_pos htaken, htotal, hnat]
  exact dif_pos h

/-- Data that do not fit behind the header are never sent. -/
theorem send_of_not_fits (txBuf : TxBuf) (data : List UInt8) (dataRate : UInt8) (injected : Int)
    (h : ¬HEADER_LENGTH + data.length ≤ MAX_PACKET_SIZE) :
    send txBuf data dataRate injected = .aborted ∨ send txBuf data dataRate injected = .overrun := by
  by_cases ht : Int.bmod (HEADER_LENGTH + data.length) (2 ^ 32) ≤ MAX_PACKET_SIZE
  · apply Or.inr
    unfold send
    rw [if_pos ht]
    exact dif_neg h
  · apply Or.inl
    unfold send
    rw [if_neg ht]

theorem take_filled (txBuf : TxBuf) (data : List UInt8) (dataRate : UInt8)
    (h : HEADER_LENGTH + data.length ≤ MAX_PACKET_SIZE) :
    (filled txBuf data dataRate h).toList.take (HEADER_LENGTH + data.length) =
      (txBuf.toList.take HEADER_LENGTH).set RATE_OFFSET dataRate ++ data := by
  rw [filled, toList_memcpy, take_patch_end data (by rw [Vector.length_toList]; decide), Vector.toList_set,
    List.take_set]

theorem take_header_filled (txBuf : TxBuf) (data : List UInt8) (dataRate : UInt8)
    (h : HEADER_LENGTH + data.length ≤ MAX_PACKET_SIZE) :
    (filled txBuf data dataRate h).toList.take HEADER_LENGTH =
      (txBuf.toList.take HEADER_LENGTH).set RATE_OFFSET dataRate := by
  rw [filled, toList_memcpy, take_patch_start data (by rw [Vector.length_toList]; decide), Vector.toList_set,
    List.take_set]

/-- A call that sends or throws has filled the buffer with data that fit. -/
theorem send_returned {txBuf txBuf' : TxBuf} {data : List UInt8} {dataRate : UInt8} {injected : Int}
    (h : (∃ frame, send txBuf data dataRate injected = .sent txBuf' frame) ∨
      send txBuf data dataRate injected = .threw txBuf') :
    ∃ hfit, txBuf' = filled txBuf data dataRate hfit := by
  by_cases hfit : HEADER_LENGTH + data.length ≤ MAX_PACKET_SIZE
  · refine ⟨hfit, ?_⟩
    rw [send_of_fits txBuf data dataRate injected hfit] at h
    by_cases hinj : injected = HEADER_LENGTH + data.length
    · obtain ⟨_, h⟩ | h := h
      · rw [if_pos hinj] at h
        exact (SendResult.sent.inj h).1.symm
      · rw [if_pos hinj] at h
        cases h
    · obtain ⟨_, h⟩ | h := h
      · rw [if_neg hinj] at h
        cases h
      · rw [if_neg hinj] at h
        exact (SendResult.threw.inj h).symm
  · obtain hn | hn := send_of_not_fits txBuf data dataRate injected hfit <;> simp [hn] at h

/-- Whatever was sent before, the header part of the buffer holds the header of the sender. -/
theorem Reachable.take_header {macAddr : Vector UInt8 6} {txBuf : TxBuf} (h : Reachable macAddr txBuf) :
    ∃ dataRate, txBuf.toList.take HEADER_LENGTH = frameHeader macAddr dataRate := by
  induction h with
  | init mem => exact ⟨MGN_24M, take_initTx mem macAddr⟩
  | @sent _ _ _ _ dataRate _ _ hsend ih =>
    obtain ⟨_, rfl⟩ := send_returned (Or.inl ⟨_, hsend⟩)
    obtain ⟨rate, ih⟩ := ih
    exact ⟨dataRate, by rw [take_header_filled, ih, frameHeader_set]⟩
  | @threw _ _ _ dataRate _ _ hsend ih =>
    obtain ⟨_, rfl⟩ := send_returned (Or.inr hsend)
    obtain ⟨rate, ih⟩ := ih
    exact ⟨dataRate, by rw [take_header_filled, ih, frameHeader_set]⟩

/-- The frame of a call depends on its sender, its rate and its payload alone. -/
theorem send_frame {macAddr : Vector UInt8 6} {txBuf : TxBuf} (hr : Reachable macAddr txBuf)
    (data : List UInt8) (dataRate : UInt8) (injected : Int) (hfit : HEADER_LENGTH + data.length ≤ MAX_PACKET_SIZE) :
    send txBuf data dataRate injected =
      if injected = HEADER_LENGTH + data.length then
        .sent (filled txBuf data dataRate hfit) (frameHeader macAddr dataRate ++ data)
      else .threw (filled txBuf data dataRate hfit) := by
  obtain ⟨rate, h⟩ := hr.take_header
  rw [send_of_fits txBuf data dataRate injected hfit, take_filled, h, frameHeader_set]

/-- A radiotap header that tells its own length. -/
structure Radiotap where
  bytes : List UInt8
  room : 8 ≤ bytes.length
  itLen_eq : (itLen fun k => bytes.getD k 0).toNat = bytes.length

/-- What the driver of the receiver makes of a frame. -/
def overTheAir (radiotap : Radiotap) (fcs : Vector UInt8 4) (frame : List UInt8) : List UInt8 :=
  radiotap.bytes ++ frame.drop radiotapHeader.length ++ fcs.toList

/-- The memory at `packet` starts with the bytes of a frame. -/
def Holds (packet : Nat → UInt8) (frame : List UInt8) : Prop :=
  ∀ k, (h : k < frame.length) → packet k = frame[k]

theorem overTheAir_frame (radiotap : Radiotap) (fcs : Vector UInt8 4) (macAddr : Vector UInt8 6) (dataRate : UInt8)
    (payload : List UInt8) :
    overTheAir radiotap fcs (frameHeader macAddr dataRate ++ payload) =
      radiotap.bytes ++ (ieee80211Of macAddr ++ llcHeader ++ payload ++ fcs.toList) := by
  rw [overTheAir, List.drop_append_of_le_length (by rw [length_frameHeader]; decide), drop_frameHeader,
    List.append_assoc]

theorem length_overTheAir (radiotap : Radiotap) (fcs : Vector UInt8 4) (macAddr : Vector UInt8 6) (dataRate : UInt8)
    (payload : List UInt8) :
    (overTheAir radiotap fcs (frameHeader macAddr dataRate ++ payload)).length =
      radiotap.bytes.length + 32 + payload.length := by
  have hllc : llcHeader.length = 4 := rfl
  rw [overTheAir_frame]
  simp only [List.length_append, length_ieee80211Of, hllc, Vector.length_toList]
  omega

theorem Holds.append_right {packet : Nat → UInt8} {front rest : List UInt8} (h : Holds packet (front ++ rest)) :
    Holds (fun k => packet (front.length + k)) rest := by
  intro k hk
  have hk' : front.length + k < (front ++ rest).length := by
    rw [List.length_append]
    omega
  simp only [h _ hk', List.getElem_append_right (Nat.le_add_right _ _), Nat.add_sub_cancel_left]

theorem Holds.append_left {packet : Nat → UInt8} {front rest : List UInt8} (h : Holds packet (front ++ rest)) :
    Holds packet front := by
  intro k hk
  have hk' : k < (front ++ rest).length := by
    rw [List.length_append]
    omega
  rw [h k hk', List.getElem_append_left hk]

theorem Holds.map_range {packet : Nat → UInt8} {bytes : List UInt8} (h : Holds packet bytes) :
    (List.range bytes.length).map packet = bytes := by
  apply List.ext_getElem
  · rw [List.length_map, List.length_range]
  · intro k _ hk
    rw [List.getElem_map, List.getElem_range, h k hk]

/-- The receiver finds the length of the radiotap header it was handed. -/
theorem Holds.itLen_eq {packet : Nat → UInt8} {radiotap : Radiotap} (h : Holds packet radiotap.bytes) :
    (itLen packet).toNat = radiotap.bytes.length := by
  have hroom := radiotap.room
  have h2 : packet 2 = radiotap.bytes.getD 2 0 := by rw [h 2 (by omega), List.getElem_eq_getD]
  have h3 : packet 3 = radiotap.bytes.getD 3 0 := by rw [h 3 (by omega), List.getElem_eq_getD]
  rw [← radiotap.itLen_eq, itLen, itLen, h2, h3]

private theorem getSeqNum_header {payload : Nat → UInt8} {macAddr : Vector UInt8 6}
    (h : Holds payload (ieee80211Of macAddr)) : getSeqNum payload = 0 := by
  have hfront : (ieee80211Header.take TX_MAC ++ macAddr.toList ++ macAddr.toList).length = 22 := by
    simp [ieee80211Header, TX_MAC]
  have hseq := Holds.append_right h
  rw [hfront] at hseq
  have h22 : payload 22 = 0 := hseq 0 (by decide)
  have h23 : payload 23 = 0 := hseq 1 (by decide)
  rw [getSeqNum, h22, h23]
  rfl

/-- `recv` hands over the payload of a frame, whatever the driver put around it. -/
theorem recv_overTheAir {macAddr : Vector UInt8 6} {dataRate : UInt8} {payload : List UInt8} {radiotap : Radiotap}
    {fcs : Vector UInt8 4} {packet : Nat → UInt8} {pcapHdr : PcapPkthdr} {maxDataSize : UInt64}
    (hpacket : Holds packet (overTheAir radiotap fcs (frameHeader macAddr dataRate ++ payload)))
    (hlen : pcapHdr.len.toNat = (overTheAir radiotap fcs (frameHeader macAddr dataRate ++ payload)).length)
    (hmax : payload.length ≤ maxDataSize.toNat) :
    ∃ r, recv 1 pcapHdr packet maxDataSize = .ok r ∧ r.data = payload ∧ r.dataSize = .ofNat payload.length ∧
      r.seqno = 0 := by
  rw [length_overTheAir] at hlen
  rw [overTheAir_frame] at hpacket
  have hit := hpacket.append_left.itLen_eq
  have hframe := hpacket.append_right
  have hsize : (dataSize pcapHdr.len (itLen packet)).toUInt64.toNat = payload.length := by
    have := (dataSize_eq_iff pcapHdr.len (itLen packet)).mpr (by omega)
    omega
  have hpayload : Holds (fun k => packet (radiotap.bytes.length + 28 + k)) payload := by
    intro k hk
    have hfront : (ieee80211Of macAddr ++ llcHeader).length = 28 := by
      rw [List.length_append, length_ieee80211Of]
      rfl
    have := hframe.append_left.append_right k hk
    rw [hfront] at this
    simp only [← this, Nat.add_assoc]
  refine ⟨_, recv_of_le (UInt64.le_iff_toNat_le.mpr (by omega)), ?_, ?_, ?_⟩
  · rw [hsize, hit]
    exact hpayload.map_range
  · have hu : (dataSize pcapHdr.len (itLen packet)).toUInt64 = .ofNat payload.length := by
      rw [← hsize, UInt64.ofNat_toNat]
    exact (Int64.toInt64_toUInt64 _).symm.trans (congrArg UInt64.toInt64 hu)
  · rw [hit]
    exact getSeqNum_header hframe.append_left.append_left.append_left

/-- The frame of a payload that fits is its sender's header and the payload, with nothing of what the buffer
held before, and `recv` hands over exactly the payload. -/
theorem recv_send {macAddr : Vector UInt8 6} {txBuf : TxBuf} (hr : Reachable macAddr txBuf) (payload : List UInt8)
    (hfit : payload.length ≤ MAX_PACKET_SIZE - HEADER_LENGTH) (dataRate : UInt8) :
    ∃ txBuf' frame, send txBuf payload dataRate (HEADER_LENGTH + payload.length) = .sent txBuf' frame ∧
      frame = frameHeader macAddr dataRate ++ payload ∧
      ∀ (radiotap : Radiotap) (fcs : Vector UInt8 4) (packet : Nat → UInt8) (pcapHdr : PcapPkthdr)
        (maxDataSize : UInt64), Holds packet (overTheAir radiotap fcs frame) →
        pcapHdr.len.toNat = (overTheAir radiotap fcs frame).length → payload.length ≤ maxDataSize.toNat →
        ∃ r, recv 1 pcapHdr packet maxDataSize = .ok r ∧ r.data = payload ∧ r.dataSize = .ofNat payload.length ∧
          r.seqno = 0 := by
  have hheader : HEADER_LENGTH ≤ MAX_PACKET_SIZE := by decide
  have hsend := send_frame hr payload dataRate (HEADER_LENGTH + payload.length) (by omega)
  rw [if_pos rfl] at hsend
  refine ⟨_, _, hsend, rfl, ?_⟩
  intro radiotap fcs packet pcapHdr maxDataSize hpacket hlen hmax
  exact recv_overTheAir hpacket hlen hmax

private def exampleMac : Vector UInt8 6 := ⟨#[0xe8, 0x4e, 0x06, 0x9c, 0xbd, 0x94], rfl⟩

/-- A radiotap header one byte longer than the sender's. -/
private def exampleRadiotap : Radiotap :=
  ⟨[0, 0, 12, 0, 0, 0, 0, 0, 1, 2, 3, 4], by decide, by decide⟩

private def exampleFrame : List UInt8 :=
  overTheAir exampleRadiotap (Vector.replicate 4 0x5a) (frameHeader exampleMac MGN_24M ++ [1, 2, 3])

/-- Three bytes, sent and received. -/
theorem recv_send_example :
    (∃ txBuf', send (initTx (Vector.replicate _ 0xee) exampleMac) [1, 2, 3] MGN_24M (HEADER_LENGTH + 3) =
      .sent txBuf' (frameHeader exampleMac MGN_24M ++ [1, 2, 3])) ∧
    ∃ r, recv 1 ⟨47, 47⟩ (fun k => exampleFrame.getD k 0) 1500 = .ok r ∧ r.data = [1, 2, 3] := by
  obtain ⟨txBuf', _, hsend, rfl, hrecv⟩ :=
    recv_send (.init (Vector.replicate _ 0xee)) [1, 2, 3] (by decide) MGN_24M
  obtain ⟨r, hr, hdata, _⟩ := hrecv exampleRadiotap (Vector.replicate 4 0x5a) (fun k => exampleFrame.getD k 0)
    ⟨47, 47⟩ 1500 (fun k h => (List.getElem_eq_getD 0).symm) (by decide) (by decide)
  exact ⟨⟨txBuf', hsend⟩, r, hr, hdata⟩

end Soar.Communication.V2xSocket
