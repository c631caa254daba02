import Soar.Communication.Delivery

/-! Runs of `v2x_receiver::recv` over the packets of any number of sender nodes. The arrivals fall into visits: the
packets of one node up to the first packet of another. -/
namespace Soar.Communication
open Soar.Library

/-- Consecutive arrivals from one node, with the coding of this node and its sources. -/
structure Visit where
  nodeId : Nat
  nin : Nat
  nout : Nat
  sources : Nat → Nat → Buffer
  arrivals : List (Nat × Nat)
  frame : Nat × Nat → Frame

namespace Visit

variable (mt19937 : Nat → Nat → UInt32) (pktSize : Nat)

def frames (v : Visit) : List Frame := v.arrivals.map v.frame

structure Sound (v : Visit) : Prop where
  nonempty : v.arrivals ≠ []
  nin_pos : 1 ≤ v.nin
  orderly : Orderly (v.nin + v.nout) v.arrivals
  frames : ∀ a ∈ v.arrivals, IsFrame mt19937 v.nin v.nout pktSize v.nodeId v.sources a (v.frame a)

/-- The results are the sources of the batches that become complete within the visit, each once and in the order
of their completion. -/
structure Results (v : Visit) (ds : List (Nat × RowTable kMaxCodingSize Buffer)) : Prop where
  sublist : (ds.map Prod.fst).Sublist (v.arrivals.map Prod.fst)
  nodup : (ds.map Prod.fst).Nodup
  complete : ∀ m, m ∈ ds.map Prod.fst ↔ Complete mt19937 v.nin v.nout m (arrived v.arrivals m)
  delivers : ∀ d ∈ ds, Delivers v.nin pktSize v.sources d.1 d.2

/-- The receiver is at the batch of the last arrival of the visit, or still at another node. -/
def At (v : Visit) (js : List (Nat × Nat)) (rx : V2xReceiver) : Prop :=
  match js.getLast? with
  | none => rx.Accepts pktSize ∧ rx.curNodeId ≠ v.nodeId
  | some a => Collected mt19937 v.nin v.nout pktSize v.nodeId v.sources a.1 (arrived js a.1) rx

end Visit

variable {mt19937 : Nat → Nat → UInt32} {pktSize : Nat} {v : Visit}

private theorem Visit.At.accepts {js : List (Nat × Nat)} {rx : V2xReceiver} (h : v.At mt19937 pktSize js rx) :
    rx.Accepts pktSize := by
  unfold Visit.At at h
  cases hl : js.getLast? with
  | none =>
    rw [hl] at h
    exact h.1
  | some a =>
    rw [hl] at h
    exact Collected.accepts h

private theorem Visit.At.radio {js : List (Nat × Nat)} {rx : V2xReceiver} (h : v.At mt19937 pktSize js rx)
    (seqno mcs : Nat) : v.At mt19937 pktSize js { rx with seqno := seqno, mcs := mcs } := by
  unfold Visit.At at h ⊢
  cases hl : js.getLast? with
  | none =>
    rw [hl] at h
    exact ⟨h.1.congr rfl rfl, h.2⟩
  | some a =>
    rw [hl] at h
    exact ⟨h.accepts.congr rfl rfl, h.curNodeId_eq, h.curBatchId_eq, h.pktNum_le, h.decoded_iff, h.waiting⟩

private theorem arrived_eq_nil_of_ne {js : List (Nat × Nat)} {m : Nat} (h : ∀ c ∈ js, c.1 ≠ m) : arrived js m = [] := by
  rw [arrived, List.map_eq_nil_iff, List.filter_eq_nil_iff]
  intro c hc
  simp [h c hc]

private theorem Visit.At.enter {js : List (Nat × Nat)} {b : Nat × Nat} {rx : V2xReceiver} {hdr : CodingHdr}
    (hnin : 1 ≤ v.nin) (ho : Orderly (v.nin + v.nout) (js ++ [b])) (h : v.At mt19937 pktSize js rx)
    (hnode : (hdr.nodeId : Nat) = v.nodeId) (hbatch : (hdr.batchId : Nat) % 2 ^ 8 = b.1 % 2 ^ 8) :
    Collected mt19937 v.nin v.nout pktSize v.nodeId v.sources b.1 (arrived js b.1) (rx.enter hdr) := by
  have hfresh (hc : ¬ rx.Continues hdr) (hnil : arrived js b.1 = []) :
      Collected mt19937 v.nin v.nout pktSize v.nodeId v.sources b.1 (arrived js b.1) (rx.enter hdr) := by
    rw [hnil]
    exact collected_enter hnin h.accepts hc hnode hbatch
  rcases List.eq_nil_or_concat js with rfl | ⟨pre, a, rfl⟩
  · -- the receiver comes from another node
    obtain ⟨_, hcur⟩ := h
    apply hfresh
    · intro hc
      exact hcur (by rw [hc.1, hnode])
    · rfl
  · simp only [List.concat_eq_append] at h ho hfresh ⊢
    simp only [Visit.At, List.getLast?_concat] at h
    by_cases hab : a.1 = b.1
    · rw [hab] at h
      have hc : rx.Continues hdr := ⟨by rw [h.curNodeId_eq, hnode], by rw [h.curBatchId_eq, hbatch]⟩
      rw [V2xReceiver.enter_continues hc]
      exact ⟨h.accepts.congr rfl rfl, h.curNodeId_eq, h.curBatchId_eq, h.pktNum_le, h.decoded_iff, h.waiting⟩
    · obtain ⟨hmod, hnew⟩ := (ho.step pre a b [] (by rw [List.append_assoc]; rfl)).resolve_left hab
      apply hfresh
      · intro hc
        apply hmod
        rw [← h.curBatchId_eq, hc.2, hbatch]
      · exact arrived_eq_nil_of_ne hnew

private theorem arrived_snoc_self (js : List (Nat × Nat)) (b : Nat × Nat) :
    arrived (js ++ [b]) b.1 = arrived js b.1 ++ [b.2] := by rw [arrived_snoc, if_pos rfl]

private theorem length_arrived_le {N : Nat} {js : List (Nat × Nat)} (ho : Orderly N js) (m : Nat) :
    (arrived js m).length ≤ N := by
  have hlt : ∀ g ∈ arrived js m, g ∈ List.range N := by
    intro g hg
    obtain ⟨a, ha, rfl⟩ := List.mem_map.mp hg
    exact List.mem_range.mpr (ho.lt a (List.mem_filter.mp ha).1)
  have hle := ((arrived_nodup ho.nodup m).subperm hlt).length_le
  rwa [List.length_range] at hle

private theorem Visit.At.step {js : List (Nat × Nat)} {b : Nat × Nat} {rx : V2xReceiver} {frame : Frame}
    (hnin : 1 ≤ v.nin) (ho : Orderly (v.nin + v.nout) (js ++ [b])) (h : v.At mt19937 pktSize js rx)
    (hf : IsFrame mt19937 v.nin v.nout pktSize v.nodeId v.sources b frame) :
    ∃ rx' done, rx.onFrame mt19937 frame = some (rx', done) ∧ v.At mt19937 pktSize (js ++ [b]) rx' ∧
      (done = true ↔ ¬ Complete mt19937 v.nin v.nout b.1 (arrived js b.1) ∧
        Complete mt19937 v.nin v.nout b.1 (arrived (js ++ [b]) b.1)) ∧
      (done = true → Delivers v.nin pktSize v.sources b.1 rx'.outputPkts) := by
  have hs := arrived_snoc_self js b
  have henter := (h.radio frame.seqno frame.mcs).enter hnin ho hf.nodeId_eq
    (by rw [hf.isPacket.batchId_eq, Nat.mod_mod])
  obtain ⟨rx', done, hrun, hc, hdone, hdel⟩ := onFrame_collected h.accepts henter
    (hs ▸ arrived_nodup ho.nodup b.1) (hs ▸ length_arrived_le ho b.1) hf
  refine ⟨rx', done, hrun, ?_, by rw [hs]; exact hdone, hdel⟩
  simp only [Visit.At, List.getLast?_concat, hs]
  exact hc

private theorem Visit.serve_arrivals {rx : V2xReceiver} (hrx : rx.Accepts pktSize) (hnode : rx.curNodeId ≠ v.nodeId)
    (hnin : 1 ≤ v.nin) (js : List (Nat × Nat)) (ho : Orderly (v.nin + v.nout) js)
    (hf : ∀ a ∈ js, IsFrame mt19937 v.nin v.nout pktSize v.nodeId v.sources a (v.frame a)) :
    ∃ rx', ∃ ds : List (Nat × RowTable kMaxCodingSize Buffer),
      rx.serve mt19937 (js.map v.frame) = some (rx', ds.map Prod.snd) ∧ v.At mt19937 pktSize js rx' ∧
        Visit.Results mt19937 pktSize { v with arrivals := js } ds := by
  induction js using List.reverseRecOn with
  | nil =>
    refine ⟨rx, [], rfl, ⟨hrx, hnode⟩, List.Sublist.slnil, List.nodup_nil, ?_, ?_⟩
    · intro m
      constructor
      · intro hm
        cases hm
      · intro hc
        exact absurd hc (not_complete_nil hnin m)
    · intro d hd
      cases hd
  | append_singleton js b ih =>
    obtain ⟨rx₁, ds, hserve, hat, hres⟩ := ih ho.init fun a ha => hf a (List.mem_append_left _ ha)
    obtain ⟨rx', done, hframe, hat', hdone, hdel⟩ :=
      hat.step hnin ho (hf b (List.mem_append_right _ (List.mem_singleton_self b)))
    have hrun := V2xReceiver.serve_snoc hserve hframe
    have hother {m : Nat} (hm : b.1 ≠ m) : arrived (js ++ [b]) m = arrived js m := by rw [arrived_snoc, if_neg hm]
    cases done with
    | false =>
      refine ⟨rx', ds, ?_, hat', ?_, hres.nodup, ?_, hres.delivers⟩
      · rw [List.map_append]
        exact hrun
      · rw [List.map_append]
        exact hres.sublist.trans (List.sublist_append_left _ _)
      · intro m
        rw [hres.complete m]
        dsimp only
        by_cases hm : b.1 = m
        · subst hm
          constructor
          · intro hc
            rw [arrived_snoc_self]
            exact hc.snoc b.2
          · intro hc
            by_contra hn
            exact Bool.noConfusion (hdone.mpr ⟨hn, hc⟩)
        · rw [hother hm]
    | true =>
      obtain ⟨hold, hnew⟩ := hdone.mp rfl
      refine ⟨rx', ds ++ [(b.1, rx'.outputPkts)], ?_, hat', ?_, ?_, ?_, ?_⟩
      · rw [List.map_append, List.map_append]
        exact hrun
      · rw [List.map_append, List.map_append]
        exact hres.sublist.append (List.Sublist.refl _)
      · rw [List.map_append, List.nodup_append]
        refine ⟨hres.nodup, List.nodup_singleton _, ?_⟩
        rintro m hm m' hm' rfl
        obtain rfl := List.mem_singleton.mp hm'
        exact hold ((hres.complete _).mp hm)
      · intro m
        rw [List.map_append, List.mem_append, hres.complete m]
        dsimp only
        by_cases hm : b.1 = m
        · subst hm
          exact ⟨fun _ => hnew, fun _ => .inr (List.mem_singleton_self _)⟩
        · rw [hother hm]
          exact or_iff_left fun hc => hm (List.mem_singleton.mp hc).symm
      · intro d hd
        rcases List.mem_append.mp hd with hd | hd
        · exact hres.delivers d hd
        · rw [List.mem_singleton.mp hd]
          exact hdel rfl

/-- A visit serves its results, whatever the receiver has collected from the node before. -/
theorem Visit.Sound.serve (hv : v.Sound mt19937 pktSize) {rx : V2xReceiver} (hrx : rx.Accepts pktSize)
    (hnode : rx.curNodeId ≠ v.nodeId) :
    ∃ rx', ∃ ds : List (Nat × RowTable kMaxCodingSize Buffer),
      rx.serve mt19937 v.frames = some (rx', ds.map Prod.snd) ∧ v.Results mt19937 pktSize ds ∧
        rx'.Accepts pktSize ∧ rx'.curNodeId = v.nodeId := by
  obtain ⟨rx', ds, hserve, hat, hres⟩ := Visit.serve_arrivals hrx hnode hv.nin_pos v.arrivals hv.orderly hv.frames
  refine ⟨rx', ds, hserve, hres, hat.accepts, ?_⟩
  unfold Visit.At at hat
  obtain ⟨a, ha⟩ := List.getLast?_isSome.mpr hv.nonempty |> Option.isSome_iff_exists.mp
  rw [ha] at hat
  exact Collected.curNodeId_eq hat

private theorem serve_visits (visits : List Visit) (hsound : ∀ v ∈ visits, v.Sound mt19937 pktSize) {rx : V2xReceiver}
    (hrx : rx.Accepts pktSize) (hchange : visits.IsChain fun v v' => v.nodeId ≠ v'.nodeId)
    (hnode : ∀ v ∈ visits.head?, rx.curNodeId ≠ (v.nodeId : Int)) :
    ∃ rx', ∃ dss : List (List (Nat × RowTable kMaxCodingSize Buffer)),
      rx.serve mt19937 (visits.flatMap Visit.frames) = some (rx', dss.flatten.map Prod.snd) ∧
        List.Forall₂ (Visit.Results mt19937 pktSize) visits dss := by
  induction visits generalizing rx with
  | nil => exact ⟨rx, [], rfl, List.Forall₂.nil⟩
  | cons v visits ih =>
    obtain ⟨rx₁, ds, hserve, hres, hrx', hcur⟩ :=
      (hsound v (List.mem_cons_self ..)).serve hrx (hnode v rfl)
    have hnext : ∀ v' ∈ visits.head?, rx₁.curNodeId ≠ (v'.nodeId : Int) := by
      intro v' hv'
      rw [hcur]
      exact_mod_cast (List.isChain_cons.mp hchange).1 v' hv'
    obtain ⟨rx', dss, hserve', hres'⟩ := ih (fun v' hv' => hsound v' (List.mem_cons_of_mem v hv')) hrx'
      (List.isChain_cons.mp hchange).2 hnext
    refine ⟨rx', ds :: dss, ?_, List.Forall₂.cons hres hres'⟩
    rw [List.flatMap_cons, V2xReceiver.serve_append, hserve, Option.bind_some, hserve']
    simp

/-- The results of successive calls over the packets of any number of nodes are the results of the visits in turn,
each as if the receiver had heard of no other node; none mixes batches or nodes. -/
theorem recv_roaming {slack : Nat} (hslack : sizeofCodingHdr ≤ slack) (visits : List Visit)
    (hsound : ∀ v ∈ visits, v.Sound mt19937 pktSize)
    (hchange : visits.IsChain fun v v' => v.nodeId ≠ v'.nodeId) :
    ∃ rx, ∃ dss : List (List (Nat × RowTable kMaxCodingSize Buffer)),
      V2xReceiver.recvCalls mt19937 ((visits.flatMap Visit.frames).length + 1) (V2xReceiver.new pktSize slack)
          (visits.flatMap Visit.frames) = some (rx, dss.flatten.map Prod.snd) ∧
        List.Forall₂ (Visit.Results mt19937 pktSize) visits dss := by
  rw [V2xReceiver.recvCalls_eq_serve _ _ _ (Nat.lt_succ_self _)]
  apply serve_visits visits hsound (V2xReceiver.accepts_new hslack) hchange
  intro v _
  change (-1 : Int) ≠ v.nodeId
  omega

/-- A node with one source and one parity packet in each batch, of which one packet is heard. -/
private def shortVisit (nodeId : Nat) (a : Nat × Nat) : Visit where
  nodeId := nodeId
  nin := 1
  nout := 1
  sources := markedBatches
  arrivals := [a]
  frame := frameOf countingStream 1 1 1 nodeId markedBatches

private theorem shortVisit_sound {nodeId : Nat} {a : Nat × Nat} (hnode : nodeId < 2 ^ 8) (ha : a.2 < 2) :
    (shortVisit nodeId a).Sound countingStream 1 where
  nonempty := List.cons_ne_nil a []
  nin_pos := Nat.le_refl 1
  orderly := by
    refine ⟨?_, List.nodup_singleton a, ?_⟩
    · intro b hb
      rw [List.mem_singleton.mp hb]
      exact ha
    · intro pre b c suf he
      have hlen := congrArg List.length he
      simp only [shortVisit, List.length_append, List.length_cons, List.length_nil] at hlen
      omega
  frames := by
    intro b hb
    rw [List.mem_singleton.mp hb]
    have hone : 1 < 2 ^ 5 := by decide
    exact isFrame_frameOf hone hone hnode ha

/-- Two nodes in turn. -/
private def shortVisits : List Visit := [shortVisit 9 (0, 0), shortVisit 7 (0, 1), shortVisit 9 (0, 1)]

/-- Three visits of one packet each. -/
theorem recv_roaming_example :
    ∃ rx, ∃ dss : List (List (Nat × RowTable kMaxCodingSize Buffer)),
      V2xReceiver.recvCalls countingStream ((shortVisits.flatMap Visit.frames).length + 1) (V2xReceiver.new 1 5)
          (shortVisits.flatMap Visit.frames) = some (rx, dss.flatten.map Prod.snd) ∧
        List.Forall₂ (Visit.Results countingStream 1) shortVisits dss := by
  apply recv_roaming (by decide)
  · intro v hv
    simp only [shortVisits, List.mem_cons, List.not_mem_nil, or_false] at hv
    rcases hv with rfl | rfl | rfl <;> exact shortVisit_sound (by decide) (by decide)
  · simp [shortVisits, shortVisit]

end Soar.Communication
