import Soar.Communication.DecodeExactness
import Soar.Communication.ReceiverStep
import Mathlib.Data.List.GetD

/-! Runs of `v2x_receiver::recv` over the packets of one sender node. An arrival `(m, g)` is
packet `g` of batch `m`; on the air the batch is known by `m` modulo 256. -/
namespace Soar.Communication
open Soar.Library Soar.Library.ColumnReduction Finset

/-- The packets of batch `m` among the arrivals, in the order of arrival. -/
def arrived (js : List (Nat × Nat)) (m : Nat) : List Nat := (js.filter (fun a => a.1 = m)).map Prod.snd

section
variable (mt19937 : Nat → Nat → UInt32) (nin nout pktSize nodeId : Nat) (S : Nat → Nat → Buffer)

/-- The columns of the packets `ids` of batch `m` have rank `nin`. -/
def Complete (m : Nat) (ids : List Nat) : Prop :=
  (receivedMatrix mt19937 (m % 2 ^ 8) nin nout (fun k => ids.getD k 0) ids.length).rank = nin

/-- A frame of the accepted size with packet `g` of batch `m`, for `a = (m, g)`. -/
structure IsFrame (a : Nat × Nat) (frame : Frame) : Prop where
  size_eq : frame.size = pktSize + sizeofCodingHdr
  nodeId_eq : ((CodingHdr.read frame.bytes).nodeId : Nat) = nodeId
  isPacket : IsPacket mt19937 (a.1 % 2 ^ 8) nin nout pktSize (S a.1) a.2 frame.bytes

/-- The first `nin` output packets are the sources of batch `m`. -/
def Delivers (m : Nat) (out : RowTable kMaxCodingSize Buffer) : Prop := ∀ i < nin, ∀ t < pktSize, out.row i t = S m i t

/-- The receiver is at batch `m`, of which `ids` have arrived: it is decoded if these
suffice, and else holds all of them. -/
structure Collected (m : Nat) (ids : List Nat) (rx : V2xReceiver) : Prop where
  accepts : rx.Accepts pktSize
  curNodeId_eq : rx.curNodeId = nodeId
  curBatchId_eq : rx.curBatchId = m % 2 ^ 8
  pktNum_le : rx.pktNum ≤ ids.length
  decoded_iff : rx.decoded = true ↔ Complete mt19937 nin nout m ids
  waiting : rx.decoded = false → rx.pktNum = ids.length ∧ ∀ k < ids.length,
    IsPacket mt19937 (m % 2 ^ 8) nin nout pktSize (S m) (ids.getD k 0) (rx.inputPkts.row k)

/-- The frame that the sender's socket carries for packet `g` of batch `m`. -/
def frameOf (a : Nat × Nat) : Frame where
  bytes := packet (a.1 % 2 ^ 8) nin nout nodeId a.2 (codeword mt19937 (a.1 % 2 ^ 8) nin nout (S a.1) a.2)
  size := pktSize + sizeofCodingHdr
  seqno := 0
  mcs := 0

end

variable {mt19937 : Nat → Nat → UInt32} {nin nout pktSize nodeId : Nat} {S : Nat → Nat → Buffer}

theorem isFrame_frameOf {a : Nat × Nat} (hnin : nin < 2 ^ 5) (hnout : nout < 2 ^ 5) (hnode : nodeId < 2 ^ 8)
    (hg : a.2 < nin + nout) :
    IsFrame mt19937 nin nout pktSize nodeId S a (frameOf mt19937 nin nout pktSize nodeId S a) := by
  have hb : a.1 % 2 ^ 8 < 2 ^ 16 := lt_trans (Nat.mod_lt _ (by decide)) (by decide)
  refine ⟨rfl, ?_, isPacket_packet nodeId a.2 hb hnin hnout hg⟩
  rw [frameOf, (read_packet _ nin nout nodeId a.2 _).2.2.2.2, Nat.mod_eq_of_lt hnode]

private theorem getD_snoc_lt (ids : List Nat) (g : Nat) {k : Nat} (h : k < ids.length) :
    (ids ++ [g]).getD k 0 = ids.getD k 0 := List.getD_append _ _ _ _ h

private theorem getD_snoc_length (ids : List Nat) (g : Nat) : (ids ++ [g]).getD ids.length 0 = g := by
  rw [List.getD_append_right _ _ _ _ le_rfl, Nat.sub_self]
  rfl

private theorem getD_inj {ids : List Nat} (h : ids.Nodup) {j k : Nat} (hj : j < ids.length) (hk : k < ids.length)
    (he : ids.getD j 0 = ids.getD k 0) : j = k := by
  rw [List.getD_eq_getElem _ _ hj, List.getD_eq_getElem _ _ hk] at he
  exact (h.getElem_inj_iff).mp he

private theorem length_le_of_nodup {ids : List Nat} {N : Nat} (h : ids.Nodup) (hN : ∀ g ∈ ids, g < N) :
    ids.length ≤ N := by
  rw [← List.toFinset_card_of_nodup h, ← card_range N]
  exact card_le_card fun g hg => mem_range.mpr (hN g (List.mem_toFinset.mp hg))

/-- A complete batch has as many packets as sources, or more. -/
theorem Complete.length_le {m : Nat} {ids : List Nat} (h : Complete mt19937 nin nout m ids) : nin ≤ ids.length := by
  have hw := Matrix.rank_le_width (receivedMatrix mt19937 (m % 2 ^ 8) nin nout (fun k => ids.getD k 0) ids.length)
  rwa [show Matrix.rank _ = nin from h] at hw

theorem complete_iff {m : Nat} {ids : List Nat} : Complete mt19937 nin nout m ids ↔
    FullRank ids.length nin (receivedColumns mt19937 (m % 2 ^ 8) nin nout (fun k => ids.getD k 0)) :=
  rank_eq_iff_fullRank

/-- A batch is complete at the latest when all its source packets have arrived. -/
theorem complete_of_sources {m : Nat} {ids : List Nat} (h : ∀ r < nin, r ∈ ids) :
    Complete mt19937 nin nout m ids := by
  rw [complete_iff]
  intro v hv r hr
  obtain ⟨k, hk, hkr⟩ := List.mem_iff_getElem.mp (h r hr)
  have hs := hv k hk
  rw [Finset.sum_eq_single r] at hs
  · rwa [receivedColumns, List.getD_eq_getElem _ _ hk, hkr, column, if_pos hr, if_pos rfl, mul_one] at hs
  · intro s hs hne
    rw [receivedColumns, List.getD_eq_getElem _ _ hk, hkr, column, if_pos hr, if_neg hne, mul_zero]
  · intro hn
    exact absurd (mem_range.mpr hr) hn

/-- A further packet does not undo completeness. -/
theorem Complete.snoc {m : Nat} {ids : List Nat} (h : Complete mt19937 nin nout m ids) (g : Nat) :
    Complete mt19937 nin nout m (ids ++ [g]) := by
  rw [complete_iff] at h ⊢
  intro v hv
  apply h v
  intro k hk
  have hs := hv k (by rw [List.length_append]; omega)
  simp only [receivedColumns] at hs ⊢
  rwa [getD_snoc_lt ids g hk] at hs

theorem isPacket_memcpy {batchId g : Nat} {T : Nat → Buffer} {pkt bytes : Buffer}
    (h : IsPacket mt19937 batchId nin nout pktSize T g bytes) :
    IsPacket mt19937 batchId nin nout pktSize T g (memcpy pkt bytes (pktSize + sizeofCodingHdr)) := by
  have hread : CodingHdr.read (memcpy pkt bytes (pktSize + sizeofCodingHdr)) = CodingHdr.read bytes := by
    apply read_congr
    intro k hk
    rw [memcpy, if_pos (by omega)]
  refine ⟨h.lt, by rw [hread, h.batchId_eq], by rw [hread, h.coefId_eq], by rw [hread, h.nin_eq],
    by rw [hread, h.nout_eq], fun t ht => ?_⟩
  rw [payload, memcpy, if_pos (by omega)]
  exact h.payload_eq t ht

private theorem collected_step {m g : Nat} {ids : List Nat} {rx : V2xReceiver} {bytes : Buffer}
    (h : Collected mt19937 nin nout pktSize nodeId S m ids rx) (hd : (ids ++ [g]).Nodup)
    (hlen : (ids ++ [g]).length ≤ kMaxCodingSize)
    (hp : IsPacket mt19937 (m % 2 ^ 8) nin nout pktSize (S m) g bytes) :
    ∃ rx' done, (if rx.decoded then some (rx, false) else rx.collect mt19937 bytes) = some (rx', done) ∧
      Collected mt19937 nin nout pktSize nodeId S m (ids ++ [g]) rx' ∧
      (done = true ↔ ¬ Complete mt19937 nin nout m ids ∧ Complete mt19937 nin nout m (ids ++ [g])) ∧
      (done = true → Delivers nin pktSize S m rx'.outputPkts) := by
  have hlen' : (ids ++ [g]).length = ids.length + 1 := by rw [List.length_append]; rfl
  cases hdec : rx.decoded with
  | true =>
    have hc := h.decoded_iff.mp hdec
    refine ⟨rx, false, if_pos rfl, ⟨h.accepts, h.curNodeId_eq, h.curBatchId_eq, ?_, ?_, ?_⟩, ?_, ?_⟩
    · exact h.pktNum_le.trans (by omega)
    · exact ⟨fun _ => hc.snoc g, fun _ => hdec⟩
    · intro hf
      rw [hdec] at hf
      cases hf
    · exact ⟨fun hf => Bool.noConfusion hf, fun hn => absurd hc hn.1⟩
    · intro hf
      cases hf
  | false =>
    obtain ⟨hnum, hpkts⟩ := h.waiting hdec
    have hnot : ¬ Complete mt19937 nin nout m ids := by
      intro hc
      rw [h.decoded_iff.mpr hc] at hdec
      cases hdec
    obtain ⟨rx', done, hrun, hs⟩ := V2xReceiver.collect_stored mt19937 rx bytes (by omega)
    have hrow : ∀ k < (ids ++ [g]).length,
        IsPacket mt19937 (m % 2 ^ 8) nin nout pktSize (S m) ((ids ++ [g]).getD k 0) (rx'.inputPkts.row k) := by
      intro k hk
      rw [hs.inputPkts, hnum]
      by_cases hkn : k = ids.length
      · subst hkn
        rw [Function.update_self, getD_snoc_length, h.accepts.pktSize_eq]
        exact isPacket_memcpy hp
      · rw [Function.update_of_ne hkn, getD_snoc_lt ids g (by omega)]
        exact hpkts k (by omega)
    have hdone : done = true ↔ Complete mt19937 nin nout m (ids ++ [g]) := by
      by_cases htry : nin ≤ rx.pktNum + 1
      · obtain ⟨out, hout, hok, _⟩ := hs.tries (by rwa [hp.nin_eq])
        obtain ⟨out', hout', hiff, _⟩ := decode_distinct rx.coder rx'.inputPkts rx.outputPkts (ids ++ [g]).length
          (fun k => (ids ++ [g]).getD k 0) (by omega) hlen hrow (fun j hj k hk he => getD_inj hd hj hk he)
        rw [hnum, h.accepts.pktSize_eq, ← hlen', hout', Option.some_inj] at hout
        rw [complete_iff, ← hiff, hout, hok]
      · have hw := hs.waits (by rw [hp.nin_eq]; omega)
        rw [hw]
        exact ⟨fun hf => Bool.noConfusion hf, fun hc => absurd hc.length_le (by omega)⟩
    refine ⟨rx', done, hrun, ⟨?_, ?_, ?_, ?_, ?_, ?_⟩, ?_, ?_⟩
    · exact hs.accepts h.accepts
    · rw [hs.curNodeId, h.curNodeId_eq]
    · rw [hs.curBatchId, h.curBatchId_eq]
    · rw [hs.pktNum, hnum, hlen']
    · rw [hs.decoded, hdec, Bool.false_or, hdone]
    · intro _
      exact ⟨by rw [hs.pktNum, hnum, hlen'], hrow⟩
    · exact ⟨fun ht => ⟨hnot, hdone.mp ht⟩, fun hc => hdone.mpr hc.2⟩
    · intro ht
      have hc := hdone.mp ht
      obtain ⟨out, hout, hok, hpk⟩ := hs.tries (by rw [hp.nin_eq, hnum, ← hlen']; exact hc.length_le)
      obtain ⟨out', hout', _, hsound, _⟩ := decode_distinct rx.coder rx'.inputPkts rx.outputPkts (ids ++ [g]).length
        (fun k => (ids ++ [g]).getD k 0) (by omega) hlen hrow (fun j hj k hk he => getD_inj hd hj hk he)
      rw [hnum, h.accepts.pktSize_eq, ← hlen', hout', Option.some_inj] at hout
      rw [hpk, ← hout]
      exact hsound (by rw [hout, ← hok, ht])

/-- Consecutive arrivals are of one batch, or the later one starts a batch of another number. -/
structure Orderly (N : Nat) (js : List (Nat × Nat)) : Prop where
  lt : ∀ a ∈ js, a.2 < N
  nodup : js.Nodup
  step : ∀ pre a b suf, js = pre ++ a :: b :: suf →
    a.1 = b.1 ∨ a.1 % 2 ^ 8 ≠ b.1 % 2 ^ 8 ∧ ∀ c ∈ pre ++ [a], c.1 ≠ b.1

theorem Orderly.init {N : Nat} {js : List (Nat × Nat)} {b : Nat × Nat} (h : Orderly N (js ++ [b])) :
    Orderly N js := by
  refine ⟨fun a ha => h.lt a (List.mem_append_left _ ha), (List.nodup_append.mp h.nodup).1, ?_⟩
  intro pre a c suf he
  exact h.step pre a c (suf ++ [b]) (by rw [he, List.append_assoc]; rfl)

theorem arrived_snoc (js : List (Nat × Nat)) (b : Nat × Nat) (m : Nat) :
    arrived (js ++ [b]) m = if b.1 = m then arrived js m ++ [b.2] else arrived js m := by
  rw [arrived, List.filter_append, List.map_append, ← arrived]
  split_ifs with h
  · simp [h]
  · simp [h]

theorem arrived_nodup {js : List (Nat × Nat)} (h : js.Nodup) (m : Nat) : (arrived js m).Nodup := by
  apply (h.filter _).map_on
  intro a ha b hb he
  have ha' := (List.mem_filter.mp ha).2
  have hb' := (List.mem_filter.mp hb).2
  simp only [decide_eq_true_eq] at ha' hb'
  exact Prod.ext (ha'.trans hb'.symm) he

private theorem mem_arrived {js : List (Nat × Nat)} {m g : Nat} (h : g ∈ arrived js m) : (m, g) ∈ js := by
  obtain ⟨a, ha, rfl⟩ := List.mem_map.mp h
  obtain ⟨hjs, hm⟩ := List.mem_filter.mp ha
  simp only [decide_eq_true_eq] at hm
  rwa [← hm]

private theorem arrived_eq_nil {js : List (Nat × Nat)} {m : Nat} (h : ∀ c ∈ js, c.1 ≠ m) : arrived js m = [] := by
  rw [arrived, List.map_eq_nil_iff, List.filter_eq_nil_iff]
  intro c hc
  simp [h c hc]

/-- The receiver is at the batch of the last arrival, or has not heard of the node. -/
def Held (mt19937 : Nat → Nat → UInt32) (nin nout pktSize nodeId : Nat) (S : Nat → Nat → Buffer)
    (js : List (Nat × Nat)) (rx : V2xReceiver) : Prop :=
  match js.getLast? with
  | none => rx.Accepts pktSize ∧ rx.curNodeId = -1 ∧ rx.pktNum = 0
  | some a => Collected mt19937 nin nout pktSize nodeId S a.1 (arrived js a.1) rx

theorem not_complete_nil (hnin : 1 ≤ nin) (m : Nat) : ¬ Complete mt19937 nin nout m [] := by
  intro h
  have := h.length_le
  simp only [List.length_nil] at this
  omega

theorem Held.accepts {js : List (Nat × Nat)} {rx : V2xReceiver}
    (h : Held mt19937 nin nout pktSize nodeId S js rx) : rx.Accepts pktSize := by
  unfold Held at h
  cases hl : js.getLast? with
  | none =>
    rw [hl] at h
    exact h.1
  | some a =>
    rw [hl] at h
    exact h.accepts

/-- A frame of another node or batch starts an empty collection. -/
theorem collected_enter {m : Nat} {rx : V2xReceiver} {hdr : CodingHdr} (hnin : 1 ≤ nin) (hrx : rx.Accepts pktSize)
    (hc : ¬ rx.Continues hdr) (hnode : (hdr.nodeId : Nat) = nodeId) (hbatch : (hdr.batchId : Nat) % 2 ^ 8 = m % 2 ^ 8) :
    Collected mt19937 nin nout pktSize nodeId S m [] (rx.enter hdr) := by
  obtain ⟨_, _, _, _, hcn, hcb⟩ := rx.enter_keeps hdr
  obtain ⟨hnum, hdec⟩ := V2xReceiver.enter_new hc
  refine ⟨hrx.enter hdr, by rw [hcn, hnode], by rw [hcb, hbatch], by rw [hnum]; exact Nat.zero_le _, ?_, ?_⟩
  · rw [hdec]
    exact ⟨fun hf => Bool.noConfusion hf, fun hc => absurd hc (not_complete_nil hnin m)⟩
  · intro _
    exact ⟨hnum, fun k hk => absurd hk (Nat.not_lt_zero k)⟩

private theorem held_enter {js : List (Nat × Nat)} {b : Nat × Nat} {rx : V2xReceiver} {hdr : CodingHdr} {N : Nat}
    (hnin : 1 ≤ nin) (ho : Orderly N (js ++ [b])) (h : Held mt19937 nin nout pktSize nodeId S js rx)
    (hnode : (hdr.nodeId : Nat) = nodeId) (hbatch : (hdr.batchId : Nat) % 2 ^ 8 = b.1 % 2 ^ 8) :
    Collected mt19937 nin nout pktSize nodeId S b.1 (arrived js b.1) (rx.enter hdr) := by
  have hfresh (hc : ¬ rx.Continues hdr) (hnil : arrived js b.1 = []) :
      Collected mt19937 nin nout pktSize nodeId S b.1 (arrived js b.1) (rx.enter hdr) := by
    rw [hnil]
    exact collected_enter hnin h.accepts hc hnode hbatch
  rcases List.eq_nil_or_concat js with rfl | ⟨pre, a, rfl⟩
  · obtain ⟨_, hcur, _⟩ := h
    refine hfresh (fun hc => ?_) rfl
    have := hc.1
    omega
  · simp only [List.concat_eq_append] at h ho hfresh ⊢
    simp only [Held, List.getLast?_concat] at h
    have hstep := ho.step pre a b [] (by rw [List.append_assoc]; rfl)
    by_cases hab : a.1 = b.1
    · rw [hab] at h
      have hc : rx.Continues hdr := ⟨by rw [h.curNodeId_eq, hnode], by rw [h.curBatchId_eq, hbatch]⟩
      rw [V2xReceiver.enter_continues hc]
      exact ⟨h.accepts.congr rfl rfl, h.curNodeId_eq, h.curBatchId_eq, h.pktNum_le, h.decoded_iff, h.waiting⟩
    · obtain ⟨hmod, hnew⟩ := hstep.resolve_left hab
      refine hfresh (fun hc => hmod ?_) (arrived_eq_nil hnew)
      rw [← h.curBatchId_eq, hc.2, hbatch]

private theorem arrived_snoc_bound {js : List (Nat × Nat)} {b : Nat × Nat} {N : Nat} (ho : Orderly N (js ++ [b])) :
    (arrived js b.1 ++ [b.2]).Nodup ∧ (arrived js b.1 ++ [b.2]).length ≤ N := by
  have hs : arrived (js ++ [b]) b.1 = arrived js b.1 ++ [b.2] := by rw [arrived_snoc, if_pos rfl]
  rw [← hs]
  refine ⟨arrived_nodup ho.nodup b.1, length_le_of_nodup (arrived_nodup ho.nodup b.1) fun g hg => ?_⟩
  exact ho.lt _ (mem_arrived hg)

/-- One accepted frame, once its batch is entered. -/
theorem onFrame_collected {m g : Nat} {ids : List Nat} {rx : V2xReceiver} {frame : Frame} (hrx : rx.Accepts pktSize)
    (hc : Collected mt19937 nin nout pktSize nodeId S m ids
      (({ rx with seqno := frame.seqno, mcs := frame.mcs } : V2xReceiver).enter (CodingHdr.read frame.bytes)))
    (hnodup : (ids ++ [g]).Nodup) (hlen : (ids ++ [g]).length ≤ nin + nout)
    (hf : IsFrame mt19937 nin nout pktSize nodeId S (m, g) frame) :
    ∃ rx' done, rx.onFrame mt19937 frame = some (rx', done) ∧
      Collected mt19937 nin nout pktSize nodeId S m (ids ++ [g]) rx' ∧
      (done = true ↔ ¬ Complete mt19937 nin nout m ids ∧ Complete mt19937 nin nout m (ids ++ [g])) ∧
      (done = true → Delivers nin pktSize S m rx'.outputPkts) := by
  have hp := hf.isPacket
  have hin : nin < 2 ^ 5 := by rw [← hp.nin_eq]; exact (CodingHdr.read frame.bytes).nin.isLt
  have hout : nout < 2 ^ 5 := by rw [← hp.nout_eq]; exact (CodingHdr.read frame.bytes).nout.isLt
  have hmax : (ids ++ [g]).length ≤ kMaxCodingSize := by
    simp only [kMaxCodingSize]
    omega
  rw [V2xReceiver.onFrame_accepted hrx hf.size_eq]
  exact collected_step hc hnodup hmax hp

/-- One arrival: the receiver stays in step with the arrivals and returns exactly when the
batch becomes complete. -/
theorem held_step {js : List (Nat × Nat)} {b : Nat × Nat} {rx : V2xReceiver} {frame : Frame} (hnin : 1 ≤ nin)
    (ho : Orderly (nin + nout) (js ++ [b])) (h : Held mt19937 nin nout pktSize nodeId S js rx)
    (hf : IsFrame mt19937 nin nout pktSize nodeId S b frame) :
    ∃ rx' done, rx.onFrame mt19937 frame = some (rx', done) ∧
      Held mt19937 nin nout pktSize nodeId S (js ++ [b]) rx' ∧ rx'.pktNum ≤ nin + nout ∧
      (done = true ↔ ¬ Complete mt19937 nin nout b.1 (arrived js b.1) ∧
        Complete mt19937 nin nout b.1 (arrived (js ++ [b]) b.1)) ∧
      (done = true → Delivers nin pktSize S b.1 rx'.outputPkts) := by
  obtain ⟨hnodup, hlen⟩ := arrived_snoc_bound ho
  have hheld : Held mt19937 nin nout pktSize nodeId S js { rx with seqno := frame.seqno, mcs := frame.mcs } := by
    unfold Held at h ⊢
    cases hl : js.getLast? with
    | none =>
      rw [hl] at h
      exact ⟨h.1.congr rfl rfl, h.2⟩
    | some a =>
      rw [hl] at h
      exact ⟨h.accepts.congr rfl rfl, h.curNodeId_eq, h.curBatchId_eq, h.pktNum_le, h.decoded_iff, h.waiting⟩
  have henter := held_enter hnin ho hheld hf.nodeId_eq (by rw [hf.isPacket.batchId_eq, Nat.mod_mod])
  obtain ⟨rx', done, hrun, hc, hdone, hdel⟩ := onFrame_collected h.accepts henter hnodup hlen hf
  have hs : arrived (js ++ [b]) b.1 = arrived js b.1 ++ [b.2] := by rw [arrived_snoc, if_pos rfl]
  refine ⟨rx', done, hrun, ?_, hc.pktNum_le.trans hlen, by rw [hs]; exact hdone, hdel⟩
  simp only [Held, List.getLast?_concat, hs]
  exact hc

/-- Over every orderly run the results of `recv` are the source packets of the batches that
became complete, each once and in the order of their completion. -/
theorem serve_orderly {slack : Nat} (hslack : sizeofCodingHdr ≤ slack) (hnin : 1 ≤ nin) (pkt : Nat × Nat → Frame)
    (js : List (Nat × Nat)) (ho : Orderly (nin + nout) js)
    (hf : ∀ a ∈ js, IsFrame mt19937 nin nout pktSize nodeId S a (pkt a)) :
    ∃ rx, ∃ ds : List (Nat × RowTable kMaxCodingSize Buffer),
      (V2xReceiver.new pktSize slack).serve mt19937 (js.map pkt) = some (rx, ds.map Prod.snd) ∧
      Held mt19937 nin nout pktSize nodeId S js rx ∧ rx.pktNum ≤ nin + nout ∧
      (ds.map Prod.fst).Sublist (js.map Prod.fst) ∧ (ds.map Prod.fst).Nodup ∧
      (∀ m, m ∈ ds.map Prod.fst ↔ Complete mt19937 nin nout m (arrived js m)) ∧
      ∀ d ∈ ds, Delivers nin pktSize S d.1 d.2 := by
  induction js using List.reverseRecOn with
  | nil =>
    refine ⟨_, [], rfl, ⟨V2xReceiver.accepts_new hslack, rfl, rfl⟩, Nat.zero_le _, List.Sublist.slnil, List.nodup_nil,
      fun m => ?_, by simp⟩
    exact ⟨fun hm => by simp at hm, fun hc => absurd hc (not_complete_nil hnin m)⟩
  | append_singleton js b ih =>
    obtain ⟨rx, ds, hserve, hheld, _, hsub, hnd, hmem, hdel⟩ :=
      ih ho.init fun a ha => hf a (List.mem_append_left _ ha)
    obtain ⟨rx', done, hframe, hheld', hnum, hdone, hdel'⟩ :=
      held_step hnin ho hheld (hf b (List.mem_append_right _ (List.mem_singleton_self b)))
    have hrun := V2xReceiver.serve_snoc hserve hframe
    rw [List.map_append, List.map_append]
    cases done with
    | false =>
      refine ⟨rx', ds, hrun, hheld', hnum, hsub.trans (List.sublist_append_left _ _), hnd, fun m => ?_, hdel⟩
      rw [hmem m, arrived_snoc]
      split_ifs with hm
      · subst hm
        have hs : arrived (js ++ [b]) b.1 = arrived js b.1 ++ [b.2] := by rw [arrived_snoc, if_pos rfl]
        rw [hs] at hdone
        refine ⟨fun hc => hc.snoc b.2, fun hc => ?_⟩
        by_contra hn
        exact Bool.noConfusion (hdone.mpr ⟨hn, hc⟩)
      · rfl
    | true =>
      obtain ⟨hold, hnew⟩ := hdone.mp rfl
      refine ⟨rx', ds ++ [(b.1, rx'.outputPkts)], ?_, hheld', hnum, ?_, ?_, fun m => ?_, ?_⟩
      · rw [List.map_append]
        exact hrun
      · rw [List.map_append]
        exact hsub.append (List.Sublist.refl _)
      · rw [List.map_append, List.nodup_append]
        refine ⟨hnd, List.nodup_singleton _, fun m hm m' hm' => ?_⟩
        rw [List.mem_singleton.mp hm']
        rintro rfl
        exact hold ((hmem b.1).mp hm)
      · rw [List.map_append, List.mem_append, hmem m]
        by_cases hm : m = b.1
        · subst hm
          exact ⟨fun _ => hnew, fun _ => Or.inr (List.mem_singleton_self _)⟩
        · rw [arrived_snoc, if_neg fun e => hm e.symm]
          exact or_iff_left fun hc => hm (List.mem_singleton.mp hc)
      · intro d hd
        rcases List.mem_append.mp hd with hd | hd
        · exact hdel d hd
        · rw [List.mem_singleton.mp hd]
          exact hdel' rfl

theorem consecutive_pair {α : Type} {x y a b : α} {pre suf : List α} (h : [x, y] = pre ++ a :: b :: suf) :
    pre = [] ∧ a = x ∧ b = y := by
  rcases pre with _ | ⟨c, _ | ⟨d, pre⟩⟩
  · cases h
    exact ⟨rfl, rfl, rfl⟩
  · cases h
  · simp at h

/-- Source packets whose bytes all tell whether they are of batch 0. -/
def markedBatches (m _i : Nat) : Buffer := fun _ => if m = 0 then 1 else 2

/-- Two packets of such batches, with one source and one parity packet each. -/
theorem isFrame_pair {a b : Nat × Nat} (ha : a.2 < 2) (hb : b.2 < 2) : ∀ c ∈ [a, b],
    IsFrame countingStream 1 1 1 9 markedBatches c (frameOf countingStream 1 1 1 9 markedBatches c) := by
  intro c hc
  apply isFrame_frameOf (by decide) (by decide) (by decide)
  rcases List.mem_pair.mp hc with rfl | rfl
  · exact ha
  · exact hb

end Soar.Communication
