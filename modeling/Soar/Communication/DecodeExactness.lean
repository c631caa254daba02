import Soar.Communication.Decoding
import Soar.Communication.Elimination

/-! `LDPC::decode` as an erasure decoder for packets with pairwise different `coefId`. -/
namespace Soar.Communication
open Soar.Library Soar.Library.ColumnReduction Finset

section
variable (mt19937 : Nat → Nat → UInt32) (batchId nin nout : Nat)

/-- The coefficient columns of the packets `ids 0, ..., ids (n - 1)`. -/
def receivedColumns (ids : Nat → Nat) (k i : Nat) : SymbolType := column mt19937 batchId nin nout (ids k) i

def receivedMatrix (ids : Nat → Nat) (n : Nat) : Matrix (Fin nin) (Fin n) SymbolType :=
  toMatrix n nin (receivedColumns mt19937 batchId nin nout ids)

end

variable {mt19937 : Nat → Nat → UInt32} {batchId nin nout pktSize : Nat} {S : Nat → Buffer}

/-- The decoder's matrices for packets of one batch, repeated ones included: the columns are
those of the batch, the payloads are their encodings. -/
theorem decode_packets (coder : LDPC) (inputPkts outputPkts : RowTable kMaxCodingSize Buffer)
    (numInput : Nat) (ids : Nat → Nat) (h1 : 1 ≤ numInput) (hn : numInput ≤ kMaxCodingSize)
    (hp : ∀ k < numInput, IsPacket mt19937 batchId nin nout pktSize S (ids k) (inputPkts.row k)) :
    ∃ (A : Mat) (Y : Nat → Buffer) (out : Decoded),
      (∀ k < numInput, A.ptr k = ids k) ∧
      (∀ g < nin + nout, ∀ i < nin, A.buf g i = column mt19937 batchId nin nout g i) ∧
      (∀ k < numInput, ∀ t < pktSize, Y k t = ∑ i ∈ range nin, S i t * column mt19937 batchId nin nout (ids k) i) ∧
      coder.decode mt19937 inputPkts outputPkts numInput pktSize = some out ∧ out.inputPkts = inputPkts ∧
      let r := gaussianElimination A (newIdentityMat numInput) numInput nin
      (out.ok = decide (nin ≤ r.1)) ∧ (r.1 ≠ nin → out.outputPkts = outputPkts) ∧
      (r.1 = nin → ∀ i < nin, ∀ t < pktSize,
        out.outputPkts.row i t = ∑ k ∈ range numInput, r.2.2.get i k * Y k t) := by
  obtain ⟨A, Y, out, hptr, hcol, hY, hdec, hin, hok, hkeep, hwrite⟩ :=
    decode_spec mt19937 coder inputPkts outputPkts numInput pktSize hn
  have hp0 := hp 0 (by omega)
  rw [hp0.nin_eq, hp0.nout_eq, hp0.batchId_eq] at hcol
  rw [hp0.nin_eq] at hok hkeep hwrite
  refine ⟨A, Y, out, ?_, hcol, ?_, hdec, hin, hok, hkeep, ?_⟩
  · intro k hk
    rw [hptr k hk, (hp k hk).coefId_eq]
  · intro k hk t ht
    rw [hY k hk, (hp k hk).payload_eq t ht, codeword_apply]
  · intro hr i hi t ht
    rw [hwrite hr i hi, mulMat_eq _ _ _ _ _ (by omega)]
    dsimp only
    rw [if_pos ht]

private theorem fullRank_congr {F : Type*} [Field F] {col row : Nat} {M N : Nat → Nat → F}
    (h : ∀ k < col, ∀ i < row, M k i = N k i) : FullRank col row M ↔ FullRank col row N := by
  have hk (v : Nat → F) : Kills col row v M ↔ Kills col row v N := by
    apply forall₂_congr
    intro k hk
    rw [Finset.sum_congr rfl fun i hi => by rw [h k hk i (mem_range.mp hi)]]
  exact forall_congr' fun v => by rw [hk v]

/-- Without repeats, `decode` returns the sources exactly if the packets determine them. -/
theorem decode_distinct (coder : LDPC) (inputPkts outputPkts : RowTable kMaxCodingSize Buffer)
    (numInput : Nat) (ids : Nat → Nat) (h1 : 1 ≤ numInput) (hn : numInput ≤ kMaxCodingSize)
    (hp : ∀ k < numInput, IsPacket mt19937 batchId nin nout pktSize S (ids k) (inputPkts.row k))
    (hd : ∀ j < numInput, ∀ k < numInput, ids j = ids k → j = k) :
    ∃ out, coder.decode mt19937 inputPkts outputPkts numInput pktSize = some out ∧
      (out.ok = true ↔ FullRank numInput nin (receivedColumns mt19937 batchId nin nout ids)) ∧
      (out.ok = true → ∀ i < nin, ∀ t < pktSize, out.outputPkts.row i t = S i t) ∧
      (out.ok = false → out.outputPkts = outputPkts) ∧ out.inputPkts = inputPkts := by
  obtain ⟨A, Y, out, hptr, hcol, hY, hdec, hin, hok, hkeep, hwrite⟩ :=
    decode_packets coder inputPkts outputPkts numInput ids h1 hn hp
  have hdist : A.Distinct numInput := by
    intro j hj k hk he
    rw [hptr j hj, hptr k hk] at he
    exact hd j hj k hk he
  have hA : ∀ k < numInput, ∀ i < nin, A.get k i = receivedColumns mt19937 batchId nin nout ids k i := by
    intro k hk i hi
    rw [Mat.get, hptr k hk, hcol _ (hp k hk).lt i hi, receivedColumns]
  obtain ⟨hrank, hinv⟩ := gaussianElimination_spec A numInput nin hdist
  have hle := gaussianElimination_le A (newIdentityMat numInput) numInput nin
  have hiff : out.ok = true ↔ (gaussianElimination A (newIdentityMat numInput) numInput nin).1 = nin := by
    rw [hok, decide_eq_true_iff]
    omega
  refine ⟨out, hdec, ?_, ?_, ?_, hin⟩
  · rw [hiff, hrank, fullRank_congr hA]
  · intro ht i hi t htp
    have hr := hiff.mp ht
    have hi' := hinv hr
    rw [hwrite hr i hi t htp]
    refine hi'.expresses.recovers hi'.reduced (fun r => S r t) (fun k => Y k t) ?_ i
      (lt_of_lt_of_le hi hi'.le_col) hi
    intro l hl
    rw [hY l hl t htp]
    apply Finset.sum_congr rfl
    intro r hr
    rw [hA l hl r (mem_range.mp hr), receivedColumns]
  · intro hf
    apply hkeep
    intro hr
    rw [hiff.mpr hr] at hf
    exact Bool.noConfusion hf

/-- Exactness of the decoder: it succeeds exactly when the received columns have rank `nin`,
and then returns the source packets; a failed attempt writes no packet. -/
theorem decode_exact (coder : LDPC) (inputPkts outputPkts : RowTable kMaxCodingSize Buffer)
    (numInput : Nat) (ids : Nat → Nat) (h1 : 1 ≤ numInput) (hn : numInput ≤ kMaxCodingSize)
    (hp : ∀ k < numInput, IsPacket mt19937 batchId nin nout pktSize S (ids k) (inputPkts.row k))
    (hd : ∀ j < numInput, ∀ k < numInput, ids j = ids k → j = k) :
    ∃ out, coder.decode mt19937 inputPkts outputPkts numInput pktSize = some out ∧
      (out.ok = true ↔ (receivedMatrix mt19937 batchId nin nout ids numInput).rank = nin) ∧
      (out.ok = true → ∀ i < nin, ∀ t < pktSize, out.outputPkts.row i t = S i t) ∧
      (out.ok = false → out.outputPkts = outputPkts) ∧ out.inputPkts = inputPkts := by
  obtain ⟨out, hdec, hiff, hrest⟩ := decode_distinct coder inputPkts outputPkts numInput ids h1 hn hp hd
  exact ⟨out, hdec, by rw [hiff, receivedMatrix, rank_eq_iff_fullRank], hrest⟩

def countingStream (seed n : Nat) : UInt32 := (seed + n).toUInt32

/-- Parity packet 2, then source packet 1, of a batch of two sources and one parity packet. -/
def parityFirst : RowTable kMaxCodingSize Buffer :=
  ⟨fun k => packet 5 2 1 9 (2 - k) (codeword countingStream 5 2 1 (fun i _ => .ofNat (i + 7)) (2 - k))⟩

/-- The parity packet and one source packet give both sources. -/
theorem decode_exact_parityFirst :
    ∃ out, LDPC.new.decode countingStream parityFirst (newMat kMaxCodingSize) 2 1 = some out ∧
      (out.ok = true ↔ (receivedMatrix countingStream 5 2 1 (fun k => 2 - k) 2).rank = 2) ∧
      (out.ok = true → ∀ i < 2, ∀ t < 1, out.outputPkts.row i t = .ofNat (i + 7)) ∧
      (out.ok = false → out.outputPkts = newMat kMaxCodingSize) ∧ out.inputPkts = parityFirst :=
  decode_exact LDPC.new parityFirst (newMat kMaxCodingSize) 2 (fun k => 2 - k) (by decide) (by decide)
    (fun k hk => isPacket_packet 9 (2 - k) (by decide) (by decide) (by decide) (by omega))
    (fun j hj k hk he => by omega)

end Soar.Communication
