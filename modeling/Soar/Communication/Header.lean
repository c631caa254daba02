import Soar.Communication.LDPC

/-! The packed header: what `encode` assigns and what `decode` and the receiver read back. -/
namespace Soar.Communication

@[simp] theorem uint16At_setUint16 (pkt : Buffer) (k v : Nat) : uint16At (setUint16 pkt k v) k = v % 2 ^ 16 := by
  rw [uint16At, setUint16, Function.update_self, Function.update_of_ne (by omega), Function.update_self,
    SymbolType.toNat_ofNat, SymbolType.toNat_ofNat]
  omega

theorem uint16At_setUint16_of_disjoint (pkt : Buffer) (k l v : Nat) (h : k + 1 < l ∨ l + 1 < k) :
    uint16At (setUint16 pkt k v) l = uint16At pkt l := by
  simp only [uint16At, setUint16]
  rw [Function.update_of_ne (by omega), Function.update_of_ne (by omega), Function.update_of_ne (by omega),
    Function.update_of_ne (by omega)]

theorem setUint16_apply (pkt : Buffer) (k v j : Nat) (h : j ≠ k ∧ j ≠ k + 1) : setUint16 pkt k v j = pkt j := by
  rw [setUint16, Function.update_of_ne h.2, Function.update_of_ne h.1]

/-- Only the first five bytes of a packet are its header. -/
theorem read_congr {pkt pkt' : Buffer} (h : ∀ k < sizeofCodingHdr, pkt k = pkt' k) :
    CodingHdr.read pkt = CodingHdr.read pkt' := by
  have h0 := h 0 (by decide)
  have h1 := h 1 (by decide)
  have h2 := h 2 (by decide)
  have h3 := h 3 (by decide)
  have h4 := h 4 (by decide)
  simp only [CodingHdr.read, uint16At, Nat.reduceAdd, h0, h1, h2, h3, h4]

/-- Bytes behind the header are not touched by the header assignments. -/
theorem writeHdr_apply (batchId j nin nout : Nat) (pkt : Buffer) (k : Nat) (h : k = 0 ∨ sizeofCodingHdr ≤ k) :
    writeHdr batchId j nin nout pkt k = pkt k := by
  have hk : k ≠ 3 ∧ k ≠ 4 ∧ k ≠ 1 ∧ k ≠ 2 := by
    simp only [sizeofCodingHdr] at h
    omega
  simp only [writeHdr, CodingHdr.setNout, CodingHdr.setNin, CodingHdr.setCoefId, CodingHdr.setBatchId, setBits]
  rw [setUint16_apply _ _ _ _ ⟨hk.1, hk.2.1⟩, setUint16_apply _ _ _ _ ⟨hk.1, hk.2.1⟩,
    setUint16_apply _ _ _ _ ⟨hk.1, hk.2.1⟩, setUint16_apply _ _ _ _ ⟨hk.2.2.1, hk.2.2.2⟩]

private theorem bitfields_writeHdr (batchId j nin nout : Nat) (pkt : Buffer) :
    uint16At (writeHdr batchId j nin nout pkt) 3 = j % 64 + nin % 32 * 64 + nout % 32 * 2048 := by
  have hu := uint16At_lt pkt 3
  simp only [writeHdr, CodingHdr.setNout, CodingHdr.setNin, CodingHdr.setCoefId, CodingHdr.setBatchId, setBits,
    uint16At_setUint16]
  rw [uint16At_setUint16_of_disjoint pkt 1 3 batchId (by omega)]
  generalize uint16At pkt 3 = h at hu
  simp only [Nat.pow_zero, Nat.mod_one, Nat.mul_one, Nat.zero_add, Nat.reducePow, Nat.reduceAdd]
  omega

/-- The header reads back modulo the widths of its fields; the node id stays. -/
theorem read_writeHdr (batchId j nin nout : Nat) (pkt : Buffer) :
    let hdr := CodingHdr.read (writeHdr batchId j nin nout pkt)
    (hdr.batchId : Nat) = batchId % 2 ^ 16 ∧ (hdr.coefId : Nat) = j % 2 ^ 6 ∧ (hdr.nin : Nat) = nin % 2 ^ 5 ∧
      (hdr.nout : Nat) = nout % 2 ^ 5 ∧ (hdr.nodeId : Nat) = (pkt 0).toNat := by
  have hb := bitfields_writeHdr batchId j nin nout pkt
  refine ⟨?_, ?_, ?_, ?_, ?_⟩
  · simp only [CodingHdr.read, writeHdr, CodingHdr.setNout, CodingHdr.setNin, CodingHdr.setCoefId, setBits]
    rw [uint16At_setUint16_of_disjoint _ 3 1 _ (by omega), uint16At_setUint16_of_disjoint _ 3 1 _ (by omega),
      uint16At_setUint16_of_disjoint _ 3 1 _ (by omega), CodingHdr.setBatchId, uint16At_setUint16]
  · simp only [CodingHdr.read, hb]
    omega
  · simp only [CodingHdr.read, hb]
    omega
  · simp only [CodingHdr.read, hb]
    omega
  · simp only [CodingHdr.read]
    rw [writeHdr_apply _ _ _ _ _ _ (Or.inl rfl)]

@[simp] theorem payload_setPayload (pkt v : Buffer) : payload (setPayload pkt v) = v := by
  funext k
  rw [payload, setPayload, if_neg (by omega), Nat.add_sub_cancel_left]

@[simp] theorem setPayload_setPayload (pkt v w : Buffer) : setPayload (setPayload pkt v) w = setPayload pkt w := by
  funext k
  simp only [setPayload]
  split_ifs <;> rfl

@[simp] theorem setPayload_payload (pkt : Buffer) : setPayload pkt (payload pkt) = pkt := by
  funext k
  simp only [setPayload, payload]
  split_ifs with h
  · rfl
  · rw [Nat.add_sub_cancel' (by omega)]

@[simp] theorem read_setPayload (pkt v : Buffer) : CodingHdr.read (setPayload pkt v) = CodingHdr.read pkt :=
  read_congr fun _ hk => if_pos hk

end Soar.Communication
