import Soar.Communication.Header
import Mathlib.Algebra.BigOperators.Ring.Finset

/-! The packets of a batch: the coefficients c(i,j) of the seeded stream and the code words. -/
namespace Soar.Communication
open Finset

/-- The coefficient c(i,j) of source `i` in parity packet `j`: draw `i * nout + j`. -/
def coef (mt19937 : Nat → Nat → UInt32) (batchId nout i j : Nat) : SymbolType :=
  .ofNat ((mt19937 batchId (i * nout + j)).toNat % FIELD_SIZE)

/-- The coefficient of source `i` in packet `g`. -/
def column (mt19937 : Nat → Nat → UInt32) (batchId nin nout g i : Nat) : SymbolType :=
  if g < nin then if i = g then 1 else 0 else coef mt19937 batchId nout i (g - nin)

section
variable (mt19937 : Nat → Nat → UInt32) (batchId nin nout pktSize : Nat) (S : Nat → Buffer)

/-- The payload of packet `g`: a source packet, or the parity sum with coefficients c(i,j). -/
def codeword (g : Nat) : Buffer :=
  if g < nin then S g else fun t => ∑ i ∈ range nin, coef mt19937 batchId nout i (g - nin) * S i t

/-- `pkt` is packet `g` of the batch, from any node. -/
structure IsPacket (g : Nat) (pkt : Buffer) : Prop where
  lt : g < nin + nout
  batchId_eq : ((CodingHdr.read pkt).batchId : Nat) = batchId
  coefId_eq : ((CodingHdr.read pkt).coefId : Nat) = g
  nin_eq : ((CodingHdr.read pkt).nin : Nat) = nin
  nout_eq : ((CodingHdr.read pkt).nout : Nat) = nout
  payload_eq : ∀ t < pktSize, payload pkt t = codeword mt19937 batchId nin nout S g t

/-- A packet with the header that `encode` and `send` write. -/
def packet (nodeId g : Nat) (v : Buffer) : Buffer :=
  setPayload (writeHdr batchId g nin nout (CodingHdr.setNodeId (fun _ => 0) nodeId)) v

end

variable {mt19937 : Nat → Nat → UInt32} {batchId nin nout pktSize : Nat} {S : Nat → Buffer}

theorem codeword_apply (g t : Nat) :
    codeword mt19937 batchId nin nout S g t = ∑ i ∈ range nin, S i t * column mt19937 batchId nin nout g i := by
  unfold codeword column
  split_ifs with hg
  · rw [Finset.sum_eq_single g]
    · rw [if_pos rfl, mul_one]
    · intro i _ hne
      rw [if_neg hne, mul_zero]
    · intro hn
      exact absurd (mem_range.mpr hg) hn
  · exact Finset.sum_congr rfl fun i _ => mul_comm _ _

/-- The header of a packet reads back. -/
theorem read_packet (batchId nin nout nodeId g : Nat) (v : Buffer) :
    let hdr := CodingHdr.read (packet batchId nin nout nodeId g v)
    (hdr.batchId : Nat) = batchId % 2 ^ 16 ∧ (hdr.coefId : Nat) = g % 2 ^ 6 ∧ (hdr.nin : Nat) = nin % 2 ^ 5 ∧
      (hdr.nout : Nat) = nout % 2 ^ 5 ∧ (hdr.nodeId : Nat) = nodeId % 2 ^ 8 := by
  have h := read_writeHdr batchId g nin nout (CodingHdr.setNodeId (fun _ => 0) nodeId)
  have h0 : (CodingHdr.setNodeId (fun _ => 0) nodeId 0).toNat = nodeId % 2 ^ 8 := by
    rw [CodingHdr.setNodeId, Function.update_self]
    exact SymbolType.toNat_ofNat nodeId
  rw [h0] at h
  simpa only [packet, read_setPayload] using h

/-- Every packet of a batch is one that `decode` accepts as such. -/
theorem isPacket_packet (nodeId g : Nat) (hb : batchId < 2 ^ 16) (hnin : nin < 2 ^ 5) (hnout : nout < 2 ^ 5)
    (hg : g < nin + nout) :
    IsPacket mt19937 batchId nin nout pktSize S g
      (packet batchId nin nout nodeId g (codeword mt19937 batchId nin nout S g)) := by
  obtain ⟨h1, h2, h3, h4, _⟩ := read_packet batchId nin nout nodeId g
    (codeword mt19937 batchId nin nout S g)
  refine ⟨hg, by rw [h1, Nat.mod_eq_of_lt hb], by rw [h2, Nat.mod_eq_of_lt (by omega)],
    by rw [h3, Nat.mod_eq_of_lt hnin], by rw [h4, Nat.mod_eq_of_lt hnout], fun t _ => ?_⟩
  rw [packet, payload_setPayload]

end Soar.Communication
