import Soar.Communication.Decoding

/-! `LDPC::encode`: the `memset` in its first loop addresses the pointer table, so no call
comes through that loop; the later loops, taken on an intact table, use the coefficients
that `decode` regenerates. -/
namespace Soar.Communication
open Soar.Library Finset

namespace OutputPkts
variable {n : Nat}

/-- The first `count` entries each designate their own buffer, as `newMat` leaves them. -/
structure Intact (pkts : OutputPkts n) (count : Nat) : Prop where
  le : count ≤ n
  own : ∀ j < count, pkts.table.row j = .buffer j

theorem Intact.modify_eq {pkts : OutputPkts n} {count : Nat} (h : pkts.Intact count) {j : Nat} (hj : j < count)
    (f : Buffer → Buffer) :
    pkts.modify j f = some { pkts with buf := Function.update pkts.buf j (f (pkts.buf j)) } := by
  have hle := h.le
  rw [modify, RowTable.get?_bind (show j < n by omega), h.own j hj]

theorem Intact.of_table {pkts pkts' : OutputPkts n} {count : Nat} (h : pkts.Intact count)
    (he : pkts'.table = pkts.table) : pkts'.Intact count :=
  ⟨h.le, fun j hj => by rw [he, h.own j hj]⟩

private theorem memsetTable_modify (pkts : OutputPkts n) (size : Nat) (hs : 0 < size) (f : Buffer → Buffer) :
    (pkts.memsetTable size).bind (fun pkts => pkts.modify 0 f) = none := by
  rw [memsetTable]
  split_ifs with hle
  · rw [Option.bind_some, modify, RowTable.get?_eq (by omega)]
    simp only [Nat.mul_zero, if_pos hs, Option.bind_eq_bind, Option.bind_some]
  · rfl

end OutputPkts

/-- Writing any header at all goes through the cleared table. -/
theorem writeHdrs_eq_none {n : Nat} (batchId pktSize nin nout : Nat) (pkts : OutputPkts n) (h : 1 ≤ nin + nout) :
    writeHdrs batchId pktSize nin nout pkts = none := by
  apply forUpM_eq_none 0 (nin + nout) 0 _ pkts le_rfl (by omega)
  intro t
  exact OutputPkts.memsetTable_modify t _ (Nat.succ_pos _) _

section
variable (mt19937 : Nat → Nat → UInt32)

/-- What `encode` is called for: every entry of the table still designates its own buffer,
which holds packet `j` of the batch. -/
def EncodeLaw {n : Nat} (coder : LDPC) (inputPkts : RowTable kMaxCodingSize Buffer) (outputPkts : OutputPkts n)
    (batchId pktSize nin nout : Nat) : Prop :=
  ∃ out, coder.encode mt19937 inputPkts outputPkts batchId pktSize nin nout = some out ∧
    ∀ j < nin + nout, out.2.table.row j = .buffer j ∧
      IsPacket mt19937 batchId nin nout pktSize inputPkts.row j (out.2.buf j)

/-- `newMat` for `n` packets, each entry with its own buffer. -/
def newPkts (n : Nat) : OutputPkts n := ⟨⟨.buffer⟩, fun _ _ => 0⟩

/-- `encode` writes through the first entry of the table right after clearing it, so no
batch with a packet in it is ever encoded. -/
theorem encode_never {n : Nat} (coder : LDPC) (inputPkts : RowTable kMaxCodingSize Buffer) (outputPkts : OutputPkts n)
    (batchId pktSize nin nout : Nat) (h : 1 ≤ nin) :
    coder.encode mt19937 inputPkts outputPkts batchId pktSize nin nout = none ∧
      ¬ EncodeLaw mt19937 coder inputPkts outputPkts batchId pktSize nin nout := by
  have hn : coder.encode mt19937 inputPkts outputPkts batchId pktSize nin nout = none := by
    rw [LDPC.encode, writeHdrs_eq_none batchId pktSize nin nout outputPkts (by omega)]
    rfl
  refine ⟨hn, ?_⟩
  rintro ⟨out, he, _⟩
  rw [hn] at he
  cases he

end

/-- A batch of a single source. -/
theorem encode_never_single :
    LDPC.new.encode (fun seed n => (seed + n).toUInt32) (newMat kMaxCodingSize) (newPkts 1) 7 4 1 0 = none ∧
      ¬ EncodeLaw (fun seed n => (seed + n).toUInt32) LDPC.new (newMat kMaxCodingSize) (newPkts 1) 7 4 1 0 :=
  encode_never _ LDPC.new (newMat kMaxCodingSize) (newPkts 1) 7 4 1 0 le_rfl

/-- Two sources and one parity packet of four bytes, on the tables a sender allocates. -/
theorem not_encodeLaw_newPkts :
    ¬ EncodeLaw (fun seed n => (seed + n).toUInt32) LDPC.new (newMat kMaxCodingSize)
      (newPkts kMaxCodingSize) 0 4 2 1 := by
  rintro ⟨out, he, _⟩
  rw [LDPC.encode, writeHdrs_eq_none _ _ _ _ _ (by decide)] at he
  cases he

variable {mt19937 : Nat → Nat → UInt32} {n : Nat}

/-- The sources are copied into the payloads of the first packets, the others stay. -/
theorem copySources_spec (inputPkts : RowTable kMaxCodingSize Buffer) (pktSize nin count : Nat)
    (pkts : OutputPkts n) (h : pkts.Intact count) (hn : nin ≤ count) (hk : nin ≤ kMaxCodingSize) :
    ∃ t, copySources inputPkts pktSize nin pkts = some t ∧ t.table = pkts.table ∧
      ∀ j, t.buf j = if j < nin then setPayload (pkts.buf j) (memcpy (payload (pkts.buf j)) (inputPkts.row j) pktSize)
        else pkts.buf j := by
  have hl := forUpM_invariant 0 nin (fun i (pkts : OutputPkts n) => do
      let src ← inputPkts.get? i
      pkts.modify i (fun pkt => setPayload pkt (memcpy (payload pkt) src pktSize))) pkts
    (fun i t => t.table = pkts.table ∧ ∀ j, t.buf j =
      if j < i then setPayload (pkts.buf j) (memcpy (payload (pkts.buf j)) (inputPkts.row j) pktSize) else pkts.buf j)
    ⟨rfl, fun j => (if_neg (by omega)).symm⟩
    (by
      rintro i t _ hi ⟨htab, hbuf⟩
      refine ⟨_, (RowTable.get?_bind (show i < kMaxCodingSize by omega) _).trans
        ((h.of_table htab).modify_eq (show i < count by omega) _), ?_, fun j => ?_⟩
      · exact htab
      dsimp only
      by_cases hj : j = i
      · subst hj
        rw [Function.update_self, hbuf, if_neg (lt_irrefl j), if_pos (Nat.lt_succ_self j)]
      · rw [Function.update_of_ne hj, hbuf]
        exact if_congr (by omega) rfl rfl)
  rwa [Nat.zero_add] at hl

/-- Parity packet `j` has absorbed the sources `0, ..., i - 1`. -/
private def Absorbed (mt19937 : Nat → Nat → UInt32) (b nin nout pktSize : Nat) (S : Nat → Buffer) (pkts : OutputPkts n)
    (done : Nat → Nat) (s : OutputPkts n) : Prop :=
  s.table = pkts.table ∧ ∀ j, s.buf j =
    if nin ≤ j ∧ j < nin + nout then setPayload (pkts.buf j) (fun t => if t < pktSize then
      payload (pkts.buf j) t + ∑ i ∈ range (done j),
        coef mt19937 b nout i (j - nin) * S i t else payload (pkts.buf j) t)
    else pkts.buf j

private theorem Absorbed.congr {b nin nout pktSize : Nat} {S : Nat → Buffer} {pkts s : OutputPkts n}
    {done done' : Nat → Nat} (h : Absorbed mt19937 b nin nout pktSize S pkts done s)
    (he : ∀ j, nin ≤ j → j < nin + nout → done j = done' j) : Absorbed mt19937 b nin nout pktSize S pkts done' s := by
  refine ⟨h.1, fun j => ?_⟩
  rw [h.2]
  split_ifs with hj
  · rw [he j hj.1 hj.2]
  · rfl

private theorem absorbed_step {b nin nout pktSize i j : Nat} {S : Nat → Buffer} {pkts s : OutputPkts n}
    {done : Nat → Nat} (h : Absorbed mt19937 b nin nout pktSize S pkts done s) (hj : j < nout)
      (hd : done (j + nin) = i) :
    Absorbed mt19937 b nin nout pktSize S pkts (Function.update done (j + nin) (i + 1))
      { s with buf := Function.update s.buf (j + nin) (setPayload (s.buf (j + nin))
        (addMulVec (payload (s.buf (j + nin))) (S i) (coef mt19937 b nout i j) pktSize)) } := by
  refine ⟨h.1, fun k => ?_⟩
  dsimp only
  by_cases hk : k = j + nin
  · subst hk
    have hb := h.2 (j + nin)
    rw [if_pos (by omega), hd] at hb
    rw [Function.update_self, Function.update_self, if_pos (by omega), hb, payload_setPayload, addMulVec_eq,
      setPayload_setPayload]
    congr 1
    funext t
    split_ifs with ht
    · rw [Finset.sum_range_succ, Nat.add_sub_cancel, add_assoc]
    · rfl
  · rw [Function.update_of_ne hk, Function.update_of_ne hk]
    exact h.2 k

private theorem addSources_row (inputPkts : RowTable kMaxCodingSize Buffer) (pktSize nin nout b i : Nat)
    {pkts : OutputPkts n} (hp : pkts.Intact (nin + nout)) {s : RandGenerator × OutputPkts n}
    (hs : s.1 = ⟨b, i * nout⟩ ∧ Absorbed mt19937 b nin nout pktSize inputPkts.row pkts (fun _ => i) s.2) :
    ∃ t, forUpM 0 nout (fun j s => do
        let (c, psrand) := s.1.randInt mt19937 FIELD_SIZE
        let pkts ← s.2.modify (j + nin)
          (fun pkt => setPayload pkt (addMulVec (payload pkt) (inputPkts.row i) (.ofNat c) pktSize))
        some (psrand, pkts)) s = some t ∧
      t.1 = ⟨b, (i + 1) * nout⟩ ∧ Absorbed mt19937 b nin nout pktSize inputPkts.row pkts (fun _ => i + 1) t.2 := by
  have hl := forUpM_invariant 0 nout (fun j (s : RandGenerator × OutputPkts n) => do
      let (c, psrand) := s.1.randInt mt19937 FIELD_SIZE
      let pkts ← s.2.modify (j + nin)
        (fun pkt => setPayload pkt (addMulVec (payload pkt) (inputPkts.row i) (.ofNat c) pktSize))
      some (psrand, pkts)) s
    (fun j s => s.1 = ⟨b, i * nout + j⟩ ∧ Absorbed mt19937 b nin nout pktSize inputPkts.row pkts
      (fun k => if k < nin + j then i + 1 else i) s.2)
    ⟨hs.1, hs.2.congr fun k hk _ => (if_neg (by omega)).symm⟩
    (by
      rintro j ⟨psrand, w⟩ _ hj ⟨hp', hw⟩
      have hr : psrand = ⟨b, i * nout + j⟩ := hp'
      subst hr
      refine ⟨_, by simp only [(hp.of_table hw.1).modify_eq (show j + nin < nin + nout by omega),
        Option.bind_eq_bind, Option.bind_some]; rfl, rfl, ?_⟩
      apply (absorbed_step hw (show j < nout by omega) (if_neg (by omega))).congr
      intro k _ _
      by_cases hk : k = j + nin
      · rw [hk, Function.update_self, if_pos (by omega)]
      · rw [Function.update_of_ne hk]
        exact if_congr (by omega) rfl rfl)
  rw [Nat.zero_add] at hl
  obtain ⟨t, he, hr, ht⟩ := hl
  exact ⟨t, he, by rw [hr, Nat.add_mul, Nat.one_mul], ht.congr fun k _ hk => if_pos hk⟩

/-- Taken on an intact table, the loops of `encode` copy the sources and add to every parity
payload, whatever it held, its code word. -/
theorem addSources_spec (mt19937 : Nat → Nat → UInt32) (inputPkts : RowTable kMaxCodingSize Buffer)
    (pktSize nin nout b : Nat)
    (pkts : OutputPkts n) (hp : pkts.Intact (nin + nout)) (hk : nin ≤ kMaxCodingSize) :
    ∃ pkts' t, copySources inputPkts pktSize nin pkts = some pkts' ∧
      addSources mt19937 inputPkts pktSize nin nout (⟨b, 0⟩, pkts') = some t ∧ t.2.table = pkts.table ∧
      ∀ j < nin + nout, CodingHdr.read (t.2.buf j) = CodingHdr.read (pkts.buf j) ∧
        ∀ u < pktSize, payload (t.2.buf j) u =
          (if j < nin then 0 else payload (pkts.buf j) u) + codeword mt19937 b nin nout inputPkts.row j u := by
  obtain ⟨pkts', hc, htab, hbuf⟩ := copySources_spec inputPkts pktSize nin _ pkts hp (Nat.le_add_right _ _) hk
  have hl := forUpM_invariant 0 nin (fun i (s : RandGenerator × OutputPkts n) => do
      let src ← inputPkts.get? i
      forUpM 0 nout (fun j s => do
        let (c, psrand) := s.1.randInt mt19937 FIELD_SIZE
        let pkts ← s.2.modify (j + nin) (fun pkt => setPayload pkt (addMulVec (payload pkt) src (.ofNat c) pktSize))
        some (psrand, pkts)) s) (⟨b, 0⟩, pkts')
    (fun i s => s.1 = ⟨b, i * nout⟩ ∧ Absorbed mt19937 b nin nout pktSize inputPkts.row pkts' (fun _ => i) s.2)
    (by
      refine ⟨by simp, rfl, fun j => ?_⟩
      split_ifs with hj
      · simp only [range_zero, sum_empty, add_zero, ite_self, setPayload_payload]
      · rfl)
    (by
      intro i s _ hi hs
      rw [RowTable.get?_eq (show i < kMaxCodingSize by omega)]
      exact addSources_row inputPkts pktSize nin nout b i (hp.of_table htab) hs)
  rw [Nat.zero_add] at hl
  obtain ⟨t, he, _, ht⟩ := hl
  refine ⟨pkts', t, hc, he, ht.1.trans htab, fun j hj => ?_⟩
  rw [ht.2 j, hbuf j]
  by_cases hjn : j < nin
  · rw [if_neg (by omega), if_pos hjn, read_setPayload, payload_setPayload]
    refine ⟨rfl, fun u hu => ?_⟩
    rw [if_pos hjn, zero_add, memcpy, if_pos hu, codeword, if_pos hjn]
  · rw [if_pos (by omega), if_neg hjn, read_setPayload, payload_setPayload]
    refine ⟨rfl, fun u hu => ?_⟩
    rw [if_neg hjn, if_pos hu, codeword, if_neg hjn]

/-- Header and coefficients agree for the sizes the bit-fields hold: the header that `encode`
writes for packet `j` reads back, and the row that `decode` selects by it, out of any earlier
G, has the coefficients with which `encode` combines the sources into that packet. -/
theorem encode_decode_agree (coder decoder : LDPC) (inputPkts : RowTable kMaxCodingSize Buffer)
    (pkts : OutputPkts n) (batchId pktSize nin nout : Nat) (hnin : nin ≤ 31) (hnout : nout ≤ 31)
    (hb : batchId < 2 ^ 8) (hp : pkts.Intact (nin + nout)) :
    ∃ pkts' t, copySources inputPkts pktSize nin pkts = some pkts' ∧
      addSources mt19937 inputPkts pktSize nin nout (coder.psrand.reseed batchId, pkts') = some t ∧
      ∀ j < nin + nout, ∀ pkt,
        let hdr := CodingHdr.read (writeHdr batchId j nin nout pkt)
        hdr.nodeId = (CodingHdr.read pkt).nodeId ∧ (hdr.batchId : Nat) = batchId ∧ (hdr.coefId : Nat) = j ∧
        (hdr.nin : Nat) = nin ∧ (hdr.nout : Nat) = nout ∧
        ∃ G s, sourceRows hdr.nin decoder.G = some G ∧
          parityRows mt19937 hdr.nin hdr.nout (decoder.psrand.reseed hdr.batchId, G) = some s ∧
          ∀ u < pktSize, payload (t.2.buf j) u = (if j < nin then 0 else payload (pkts.buf j) u) +
            ∑ i ∈ range nin, s.2.row hdr.coefId i * inputPkts.row i u := by
  have hmax : nin + nout ≤ kMaxCodingSize := by
    simp only [kMaxCodingSize]
    omega
  obtain ⟨pkts', t, hc, ha, _, hpay⟩ := addSources_spec mt19937 inputPkts pktSize nin nout batchId pkts hp
    (by omega)
  refine ⟨pkts', t, hc, ha, fun j hj pkt => ?_⟩
  intro hdr
  obtain ⟨h1, h2, h3, h4, h5⟩ := read_writeHdr batchId j nin nout pkt
  have hbatch : (hdr.batchId : Nat) = batchId := by rw [h1, Nat.mod_eq_of_lt (by omega)]
  have hcoef : (hdr.coefId : Nat) = j := by rw [h2, Nat.mod_eq_of_lt (by omega)]
  have hin : (hdr.nin : Nat) = nin := by rw [h3, Nat.mod_eq_of_lt (by omega)]
  have hout : (hdr.nout : Nat) = nout := by rw [h4, Nat.mod_eq_of_lt (by omega)]
  obtain ⟨G, hG, hrow⟩ := sourceRows_spec nin decoder.G (by omega)
  obtain ⟨s, hs, hrow'⟩ := parityRows_spec mt19937 batchId nin nout G hmax
  refine ⟨Fin.ext h5, hbatch, hcoef, hin, hout, G, s, ?_, ?_, ?_⟩
  · rw [hin, hG]
  · rw [hin, hout, hbatch]
    exact hs
  · intro u hu
    rw [(hpay j hj).2 u hu, codeword_apply, hcoef]
    congr 1
    apply Finset.sum_congr rfl
    intro i hi
    have hi' := mem_range.mp hi
    rw [mul_comm]
    by_cases hjn : j < nin
    · rw [hrow', if_neg (by omega), hrow, if_pos ⟨hjn, hi'⟩, column, if_pos hjn]
    · rw [hrow', if_pos (by omega), column, if_neg hjn]

theorem intact_newPkts {n count : Nat} (h : count ≤ n) : (newPkts n).Intact count := ⟨h, fun _ _ => rfl⟩

/-- Packets that differ from each other. -/
def unlikeSources : RowTable kMaxCodingSize Buffer := ⟨fun i u => .ofNat (7 * i + u + 1)⟩

/-- Two sources and a parity packet of batch 200. -/
theorem encode_decode_agree_unlikeSources :
    ∃ pkts' t, copySources unlikeSources 4 2 (newPkts kMaxCodingSize) = some pkts' ∧
      addSources (fun seed n => (seed + n).toUInt32) unlikeSources 4 2 1
        (LDPC.new.psrand.reseed 200, pkts') = some t ∧
      ∀ j < 2 + 1, ∀ pkt,
        let hdr := CodingHdr.read (writeHdr 200 j 2 1 pkt)
        hdr.nodeId = (CodingHdr.read pkt).nodeId ∧ (hdr.batchId : Nat) = 200 ∧ (hdr.coefId : Nat) = j ∧
        (hdr.nin : Nat) = 2 ∧ (hdr.nout : Nat) = 1 ∧
        ∃ G s, sourceRows hdr.nin LDPC.new.G = some G ∧
          parityRows (fun seed n => (seed + n).toUInt32) hdr.nin hdr.nout
            (LDPC.new.psrand.reseed hdr.batchId, G) = some s ∧
          ∀ u < 4, payload (t.2.buf j) u = (if j < 2 then 0 else payload ((newPkts kMaxCodingSize).buf j) u) +
            ∑ i ∈ range 2, s.2.row hdr.coefId i * unlikeSources.row i u :=
  encode_decode_agree LDPC.new LDPC.new unlikeSources (newPkts kMaxCodingSize) 200 4 2 1
    (by decide) (by decide) (by decide) (intact_newPkts (by decide))

/-- Thirty-two sources fit the buffers, but the five bits of `nin` keep none of them. -/
theorem not_read_writeHdr_nin :
    ¬ ∀ nin nout batchId j, 1 ≤ nin → nin + nout ≤ kMaxCodingSize → batchId < 2 ^ 8 → j < nin + nout →
      ∀ pkt, ((CodingHdr.read (writeHdr batchId j nin nout pkt)).nin : Nat) = nin := by
  intro h
  have h32 := h 32 0 0 0 (by decide) (by decide) (by decide) (by decide) (fun _ => 0)
  rw [(read_writeHdr 0 0 32 0 (fun _ => 0)).2.2.1] at h32
  exact absurd h32 (by decide)

end Soar.Communication
