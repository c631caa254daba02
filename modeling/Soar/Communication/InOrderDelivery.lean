import Soar.Communication.Delivery

/-! Delivery over a channel that drops packets but keeps their order. -/
namespace Soar.Communication
open Soar.Library Soar.Library.ColumnReduction Finset

/-- Arrivals in the order in which the sender emits them, none twice. -/
structure InOrder (N : Nat) (js : List (Nat × Nat)) : Prop where
  lt : ∀ a ∈ js, a.2 < N
  sorted : js.Pairwise fun a b => a.1 < b.1 ∨ a.1 = b.1 ∧ a.2 < b.2

/-- Consecutive arrivals of different batches differ in their number on the air. -/
def Distinguishable (js : List (Nat × Nat)) : Prop :=
  ∀ pre a b suf, js = pre ++ a :: b :: suf → a.1 = b.1 ∨ a.1 % 2 ^ 8 ≠ b.1 % 2 ^ 8

/-- Consecutive arrivals are of batches fewer than 256 apart. -/
def Near (js : List (Nat × Nat)) : Prop := ∀ pre a b suf, js = pre ++ a :: b :: suf → b.1 < a.1 + 2 ^ 8

variable {N : Nat} {js : List (Nat × Nat)}

theorem InOrder.orderly (h : InOrder N js) (hd : Distinguishable js) : Orderly N js := by
  refine ⟨h.lt, h.sorted.imp ?_, fun pre a b suf he => ?_⟩
  · rintro a b hab rfl
    omega
  · refine or_iff_not_imp_left.mpr fun hne => ⟨(hd pre a b suf he).resolve_left hne, fun c hc hcb => ?_⟩
    have hs := h.sorted
    rw [he, List.pairwise_append, List.pairwise_cons] at hs
    obtain ⟨_, ⟨hab, _⟩, hpre⟩ := hs
    have hab' := hab b List.mem_cons_self
    rcases List.mem_append.mp hc with hc | hc
    · have := hpre c hc a List.mem_cons_self
      omega
    · rw [List.mem_singleton.mp hc] at hcb
      exact hne hcb

theorem InOrder.distinguishable (h : InOrder N js) (hn : Near js) : Distinguishable js := by
  intro pre a b suf he
  have hs := h.sorted
  rw [he, List.pairwise_append, List.pairwise_cons] at hs
  have hab := hs.2.1.1 b List.mem_cons_self
  have hlt := hn pre a b suf he
  omega

theorem InOrder.take (h : InOrder N js) (k : Nat) : InOrder N (js.take k) :=
  ⟨fun a ha => h.lt a (List.mem_of_mem_take ha), h.sorted.sublist (List.take_sublist k js)⟩

theorem Near.take (h : Near js) (k : Nat) : Near (js.take k) := by
  intro pre a b suf he
  apply h pre a b (suf ++ js.drop k)
  calc js = js.take k ++ js.drop k := (List.take_append_drop k js).symm
    _ = pre ++ a :: b :: (suf ++ js.drop k) := by rw [he, List.append_assoc]; rfl

private theorem batches_sorted (h : InOrder N js) {ms : List Nat} (hs : ms.Sublist (js.map Prod.fst)) (hn : ms.Nodup) :
    ms.Pairwise (· < ·) := by
  have hle : (js.map Prod.fst).Pairwise (· ≤ ·) := by
    rw [List.pairwise_map]
    exact h.sorted.imp fun hab => by omega
  exact ((hle.sublist hs).and hn).imp fun hab => lt_of_le_of_ne hab.1 hab.2

variable {mt19937 : Nat → Nat → UInt32} {nin nout pktSize nodeId : Nat} {S : Nat → Nat → Buffer}

/-- After any number `k` of arrivals the calls of `recv` have returned, in increasing order and once each, the source
packets of the batches that are complete by then. -/
def DeliversInOrder (mt19937 : Nat → Nat → UInt32) (nin nout pktSize : Nat) (S : Nat → Nat → Buffer) (rx₀ : V2xReceiver)
    (pkt : Nat × Nat → Frame) (js : List (Nat × Nat)) : Prop :=
  ∀ k, ∃ rx, ∃ ds : List (Nat × RowTable kMaxCodingSize Buffer),
    V2xReceiver.recvCalls mt19937 (k + 1) rx₀ ((js.take k).map pkt) = some (rx, ds.map Prod.snd) ∧
    (ds.map Prod.fst).Pairwise (· < ·) ∧
    (∀ m, m ∈ ds.map Prod.fst ↔ Complete mt19937 nin nout m (arrived (js.take k) m)) ∧
    (∀ d ∈ ds, Delivers nin pktSize S d.1 d.2) ∧ rx.pktNum ≤ nin + nout

private theorem deliversInOrder {slack : Nat} (hslack : sizeofCodingHdr ≤ slack) (hnin : 1 ≤ nin)
    (pkt : Nat × Nat → Frame) (js : List (Nat × Nat)) (h : InOrder (nin + nout) js) (hn : Near js)
    (hf : ∀ a ∈ js, IsFrame mt19937 nin nout pktSize nodeId S a (pkt a)) :
    DeliversInOrder mt19937 nin nout pktSize S (V2xReceiver.new pktSize slack) pkt js := by
  intro k
  have hk := h.take k
  obtain ⟨rx, ds, hserve, _, hnum, hsub, hnd, hmem, hdel⟩ :=
    serve_orderly hslack hnin pkt (js.take k) (hk.orderly (hk.distinguishable (hn.take k)))
      (fun a ha => hf a (List.mem_of_mem_take ha))
  refine ⟨rx, ds, ?_, batches_sorted hk hsub hnd, hmem, hdel, hnum⟩
  rw [V2xReceiver.recvCalls_eq_serve, hserve]
  rw [List.length_map, List.length_take]
  omega

private theorem deliversInOrder_nil {slack : Nat} (hnin : 1 ≤ nin) (pkt : Nat × Nat → Frame) :
    DeliversInOrder mt19937 nin nout pktSize S (V2xReceiver.new pktSize slack) pkt [] := by
  intro k
  refine ⟨V2xReceiver.new pktSize slack, [], ?_, List.Pairwise.nil, fun m => ?_, fun d hd => absurd hd List.not_mem_nil,
    Nat.zero_le _⟩
  · rw [List.take_nil]
    rfl
  · rw [List.take_nil]
    exact iff_of_false List.not_mem_nil (not_complete_nil hnin m)

/-- Delivery in order over a lossy channel. The first packet that arrives needs `sizeofCodingHdr` bytes behind the
array that the constructor allocates; with them every run is delivered. -/
theorem recv_in_order_iff (slack : Nat) (hnin : 1 ≤ nin) (pkt : Nat × Nat → Frame) (js : List (Nat × Nat))
    (h : InOrder (nin + nout) js) (hn : Near js)
    (hf : ∀ a ∈ js, IsFrame mt19937 nin nout pktSize nodeId S a (pkt a)) :
    DeliversInOrder mt19937 nin nout pktSize S (V2xReceiver.new pktSize slack) pkt js ↔
      js = [] ∨ sizeofCodingHdr ≤ slack := by
  constructor
  · intro hd
    rcases js with _ | ⟨a, js⟩
    · exact Or.inl rfl
    · right
      by_contra hslack
      obtain ⟨rx, ds, hrun, _⟩ := hd 1
      rw [V2xReceiver.recvCalls_eq_serve _ _ _ (by simp), List.take_succ_cons, List.map_cons,
        V2xReceiver.serve_noRoom _ (not_le.mp hslack) (hf a List.mem_cons_self).size_eq] at hrun
      cases hrun
  · rintro (rfl | hslack)
    · exact deliversInOrder_nil hnin pkt
    · exact deliversInOrder hslack hnin pkt js h hn hf

/-- Two batches of a single packet each, in order. -/
theorem recv_in_order_iff_twoBatches :
    DeliversInOrder countingStream 1 1 1 markedBatches (V2xReceiver.new 1 5)
      (frameOf countingStream 1 1 1 9 markedBatches) [(0, 0), (1, 1)] := by
  refine (recv_in_order_iff 5 le_rfl _ [(0, 0), (1, 1)] ⟨by decide, by decide⟩ (fun pre a b suf he => ?_)
    (isFrame_pair (by decide) (by decide))).mpr (Or.inr (by decide))
  obtain ⟨rfl, rfl, rfl⟩ := consecutive_pair he
  decide

/-- One packet of one byte, and a `recv_buf` of just that byte. -/
theorem not_deliversInOrder_exact : ¬ DeliversInOrder countingStream 1 1 1 markedBatches (V2xReceiver.new 1 0)
    (frameOf countingStream 1 1 1 9 markedBatches) [(0, 0)] := by
  intro h
  obtain ⟨rx, ds, hrun, _⟩ := h 1
  rw [V2xReceiver.recvCalls_eq_serve _ _ _ (by simp), List.take_succ_cons, List.map_cons,
    V2xReceiver.serve_noRoom _ (by decide) rfl] at hrun
  cases hrun

/-- No result mixes batches, however many packets are lost, as long as no arrival follows one
of another batch with the same number on the air. -/
theorem recv_single_batch {slack : Nat} (hslack : sizeofCodingHdr ≤ slack) (hnin : 1 ≤ nin)
    (pkt : Nat × Nat → Frame) (js : List (Nat × Nat)) (h : InOrder (nin + nout) js) (hd : Distinguishable js)
    (hf : ∀ a ∈ js, IsFrame mt19937 nin nout pktSize nodeId S a (pkt a)) :
    ∃ rx outs, V2xReceiver.recvCalls mt19937 (js.length + 1) (V2xReceiver.new pktSize slack) (js.map pkt) =
        some (rx, outs) ∧
      ∀ out ∈ outs, ∃ a ∈ js, Delivers nin pktSize S a.1 out := by
  obtain ⟨rx, ds, hserve, _, _, hsub, _, _, hdel⟩ := serve_orderly hslack hnin pkt js (h.orderly hd) hf
  refine ⟨rx, ds.map Prod.snd, ?_, fun out hout => ?_⟩
  · rw [V2xReceiver.recvCalls_eq_serve, hserve]
    rw [List.length_map]
    omega
  · obtain ⟨d, hd, rfl⟩ := List.mem_map.mp hout
    obtain ⟨a, ha, hfst⟩ := List.mem_map.mp (hsub.subset (List.mem_map_of_mem hd))
    exact ⟨a, ha, by rw [hfst]; exact hdel d hd⟩

/-- The packets of batches 0 and 257. -/
theorem recv_single_batch_gap :
    ∃ rx outs, V2xReceiver.recvCalls countingStream (2 + 1) (V2xReceiver.new 1 5)
        ([(0, 0), (257, 1)].map (frameOf countingStream 1 1 1 9 markedBatches)) = some (rx, outs) ∧
      ∀ out ∈ outs, ∃ a ∈ [(0, 0), (257, 1)], Delivers 1 1 markedBatches a.1 out := by
  refine recv_single_batch (by decide : sizeofCodingHdr ≤ 5) le_rfl _ [(0, 0), (257, 1)] ⟨by decide, by decide⟩
    (fun pre a b suf he => ?_) (isFrame_pair (by decide) (by decide))
  obtain ⟨rfl, rfl, rfl⟩ := consecutive_pair he
  decide

/-- Packet 0 of batch 0, then packet 1 of batch 256: the one result mixes the two. -/
theorem recv_mixes_batches :
    ∃ rx out, V2xReceiver.recvCalls countingStream (2 + 1) (V2xReceiver.new 1 5)
        ([(0, 0), (256, 1)].map (frameOf countingStream 2 0 1 9 markedBatches)) = some (rx, [out]) ∧
      ∀ m, ¬ Delivers 2 1 markedBatches m out := by
  -- to the receiver the two packets are packets 0 and 1 of one batch
  let T : Nat → Nat → Buffer := fun _ i => if i = 0 then markedBatches 0 0 else markedBatches 256 1
  let pkt : Nat × Nat → Frame := fun a => frameOf countingStream 2 0 1 9 markedBatches (256 * a.2, a.2)
  have hf : ∀ a ∈ [(0, 0), (0, 1)], IsFrame countingStream 2 0 1 9 T a (pkt a) := by
    intro a ha
    have hframe : ∀ b : Nat × Nat, b.2 < 2 → IsFrame countingStream 2 0 1 9 markedBatches b
        (frameOf countingStream 2 0 1 9 markedBatches b) :=
      fun b hb => isFrame_frameOf (by decide) (by decide) (by decide) hb
    rcases List.mem_pair.mp ha with rfl | rfl
    · obtain ⟨hs, hn, hp⟩ := hframe (0, 0) (by decide)
      exact ⟨hs, hn, hp.lt, hp.batchId_eq, hp.coefId_eq, hp.nin_eq, hp.nout_eq, hp.payload_eq⟩
    · obtain ⟨hs, hn, hp⟩ := hframe (256, 1) (by decide)
      exact ⟨hs, hn, hp.lt, hp.batchId_eq, hp.coefId_eq, hp.nin_eq, hp.nout_eq, hp.payload_eq⟩
  have ho : Orderly 2 [(0, 0), (0, 1)] :=
    ⟨by decide, by decide, fun pre a b suf he => by obtain ⟨rfl, rfl, rfl⟩ := consecutive_pair he; exact Or.inl rfl⟩
  obtain ⟨rx, ds, hserve, _, _, hsub, hnd, hmem, hdel⟩ :=
    serve_orderly (by decide : sizeofCodingHdr ≤ 5) (by decide) pkt [(0, 0), (0, 1)] ho hf
  have hzero : ∀ d ∈ ds, d.1 = 0 := by
    intro d hd
    simpa using hsub.subset (List.mem_map_of_mem hd)
  have hin : 0 ∈ ds.map Prod.fst := (hmem 0).mpr (complete_of_sources (by decide))
  rcases ds with _ | ⟨d, _ | ⟨e, ds⟩⟩
  · simp at hin
  · have hd := hdel d List.mem_cons_self
    refine ⟨rx, d.2, ?_, fun m hm => ?_⟩
    · have hpkts : [(0, 0), (0, 1)].map pkt = [(0, 0), (256, 1)].map (frameOf countingStream 2 0 1 9 markedBatches) := by
        simp only [pkt, List.map_cons, List.map_nil, Nat.mul_zero, Nat.mul_one]
      rw [V2xReceiver.recvCalls_eq_serve _ _ _ (Nat.lt_succ_self 2), ← hpkts, hserve]
      rfl
    · have h0 := (hd 0 (by decide) 0 (by decide)).symm.trans (hm 0 (by decide) 0 (by decide))
      have h1 := (hd 1 (by decide) 0 (by decide)).symm.trans (hm 1 (by decide) 0 (by decide))
      exact absurd (show (1 : SymbolType) = 2 from h0.trans h1.symm) (by decide)
  · have h1 := hzero d List.mem_cons_self
    have h2 := hzero e (List.mem_cons_of_mem _ List.mem_cons_self)
    simp [h1, h2] at hnd

end Soar.Communication
