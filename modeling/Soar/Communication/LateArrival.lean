import Soar.Communication.Delivery
import Soar.Library.Stretches

/-! Arrivals that come after packets of later batches. The history is meant to reject them,
but the loop that scans it rejects nothing, so such a packet moves the receiver back. -/
namespace Soar.Communication
open Soar.Library Soar.Library.ColumnReduction Finset

variable {mt19937 : Nat → Nat → UInt32}

namespace V2xReceiver

/-- What `collect` returns is stored. -/
theorem collect_some {rx rx' : V2xReceiver} {bytes : Buffer} {done : Bool}
    (h : rx.collect mt19937 bytes = some (rx', done)) : Stored mt19937 rx bytes rx' done := by
  by_cases hn : rx.pktNum < kMaxCodingSize
  · obtain ⟨rx₁, done₁, hrun, hs⟩ := collect_stored mt19937 rx bytes hn
    rw [hrun, Option.some_inj, Prod.mk.injEq] at h
    obtain ⟨rfl, rfl⟩ := h
    exact hs
  · rw [collect_full rx bytes (by omega)] at h
    cases h

/-- The first packet of a node leaves the initial batch number in the history. -/
theorem enter_history_node {rx : V2xReceiver} {hdr : CodingHdr} (hn : rx.curNodeId ≠ (hdr.nodeId : Nat))
    (hb : (hdr.batchId : Nat) % 2 ^ 8 ≠ 2 ^ 8 - 1) : (rx.enter hdr).history = [2 ^ 8 - 1] := by
  rw [enter_eq, changeNode, if_pos hn.symm, changeBatch, if_pos hb]
  rfl

/-- A packet of another batch enters the current one in the history, which keeps the last `kMaxHistorySize - 1`. -/
theorem enter_history_batch {rx : V2xReceiver} {hdr : CodingHdr} {left : List Nat}
    (hl : rx.history = left.rtake (kMaxHistorySize - 1)) (hn : rx.curNodeId = (hdr.nodeId : Nat))
    (hb : (hdr.batchId : Nat) % 2 ^ 8 ≠ rx.curBatchId) :
    (rx.enter hdr).history = (left ++ [rx.curBatchId]).rtake (kMaxHistorySize - 1) := by
  rw [enter_eq, changeNode, if_neg fun h => h hn.symm, changeBatch, if_pos hb]
  dsimp only
  rw [hl]
  exact rtake_concat left (kMaxHistorySize - 1) rx.curBatchId

/-- An accepted frame leaves the receiver at the frame's batch, also where the history lists that batch. -/
theorem onFrame_batch {pktSize : Nat} {rx rx' : V2xReceiver} {frame : Frame} {done : Bool} (hrx : rx.Accepts pktSize)
    (hsize : frame.size = pktSize + sizeofCodingHdr) (h : rx.onFrame mt19937 frame = some (rx', done)) :
    rx'.curBatchId = ((CodingHdr.read frame.bytes).batchId : Nat) % 2 ^ 8 ∧
      rx'.history = (({ rx with seqno := frame.seqno, mcs := frame.mcs } : V2xReceiver).enter
        (CodingHdr.read frame.bytes)).history := by
  rw [onFrame_accepted hrx hsize] at h
  obtain ⟨_, _, _, _, _, hcb⟩ :=
    ({ rx with seqno := frame.seqno, mcs := frame.mcs } : V2xReceiver).enter_keeps (CodingHdr.read frame.bytes)
  dsimp only at h
  split_ifs at h with hdec
  · cases h
    exact ⟨hcb, rfl⟩
  · have hs := collect_some h
    exact ⟨by rw [hs.curBatchId, hcb], hs.history⟩

section
variable (mt19937 : Nat → Nat → UInt32) (pkt : Nat × Nat → Frame)

/-- The calls of `recv` that the arrivals serve: the batch of the arrival at which a call returns, and what it
returns. -/
def deliveries : V2xReceiver → List (Nat × Nat) → Option (V2xReceiver × List (Nat × RowTable kMaxCodingSize Buffer))
  | rx, [] => some (rx, [])
  | rx, a :: js => do
    let (rx, done) ← rx.onFrame mt19937 (pkt a)
    let (rx', ds) ← deliveries rx js
    some (rx', if done then (a.1, rx.outputPkts) :: ds else ds)

end

variable {pkt : Nat × Nat → Frame}

/-- Without the batches these are the results of successive calls of `recv`. -/
theorem recvCalls_deliveries (js : List (Nat × Nat)) (rx : V2xReceiver) :
    recvCalls mt19937 (js.length + 1) rx (js.map pkt) =
      (deliveries mt19937 pkt rx js).map fun r => (r.1, r.2.map Prod.snd) := by
  rw [recvCalls_eq_serve _ _ _ (by rw [List.length_map]; omega)]
  induction js generalizing rx with
  | nil => rfl
  | cons a js ih =>
    rw [List.map_cons, serve, deliveries]
    cases rx.onFrame mt19937 (pkt a) with
    | none => rfl
    | some r =>
      obtain ⟨rx₁, done⟩ := r
      simp only [Option.bind_eq_bind, Option.bind_some]
      rw [ih]
      cases deliveries mt19937 pkt rx₁ js with
      | none => rfl
      | some r' => cases done <;> rfl

/-- One more arrival. -/
theorem deliveries_concat {js : List (Nat × Nat)} {b : Nat × Nat} {rx rx₁ rx₂ : V2xReceiver} {done : Bool}
    {ds : List (Nat × RowTable kMaxCodingSize Buffer)} (h : deliveries mt19937 pkt rx js = some (rx₁, ds))
    (hb : rx₁.onFrame mt19937 (pkt b) = some (rx₂, done)) :
    deliveries mt19937 pkt rx (js ++ [b]) = some (rx₂, if done then ds ++ [(b.1, rx₂.outputPkts)] else ds) := by
  induction js generalizing rx ds with
  | nil =>
    cases h
    rw [List.nil_append, deliveries, hb]
    cases done <;> rfl
  | cons a js ih =>
    rw [deliveries, Option.bind_eq_bind] at h
    obtain ⟨⟨rx', done'⟩, ha, h⟩ := Option.bind_eq_some_iff.mp h
    obtain ⟨⟨rx₁', ds'⟩, hjs, h⟩ := Option.bind_eq_some_iff.mp h
    cases h
    rw [List.cons_append, deliveries, ha, Option.bind_eq_bind, Option.bind_some]
    dsimp only
    rw [ih hjs, Option.bind_eq_bind, Option.bind_some]
    cases done <;> cases done' <;> rfl

end V2xReceiver

section
variable (mt19937 : Nat → Nat → UInt32) (nin nout pktSize : Nat) (S : Nat → Nat → Buffer)

/-- No batch is returned twice, and an arrival whose batch is in the history changes neither the current batch nor
what is collected of it. -/
structure AtMostOnce (rx₀ : V2xReceiver) (pkt : Nat × Nat → Frame) (js : List (Nat × Nat)) : Prop where
  once : ∃ rx ds, V2xReceiver.deliveries mt19937 pkt rx₀ js = some (rx, ds) ∧ (ds.map Prod.fst).Nodup ∧
    ∀ d ∈ ds, Delivers nin pktSize S d.1 d.2
  rejects : ∀ pre b suf, js = pre ++ b :: suf → ∃ rx ds,
    V2xReceiver.deliveries mt19937 pkt rx₀ pre = some (rx, ds) ∧ (b.1 ∈ rx.history →
      ∃ rx' done, rx.onFrame mt19937 (pkt b) = some (rx', done) ∧ rx'.curBatchId = rx.curBatchId ∧
        rx'.pktNum = rx.pktNum ∧ rx'.decoded = rx.decoded ∧ rx'.inputPkts = rx.inputPkts)

/-- The batches of the `kMaxHistorySize - 1` stretches of arrivals before the last one. -/
def recentlyLeft (js : List (Nat × Nat)) : List Nat :=
  ((stretches Prod.fst js).dropLast.rtake (kMaxHistorySize - 1)).flatten.map Prod.fst

/-- No arrival belongs to one of the batches left last, unless that batch is current again. -/
def NoneFromHistory (js : List (Nat × Nat)) : Prop :=
  ∀ pre a b suf, js = pre ++ a :: b :: suf → b.1 ∈ recentlyLeft (pre ++ [a]) → a.1 = b.1

/-- The arrivals of one stretch suffice for their batch. -/
def Completes (run : List (Nat × Nat)) : Prop := ∀ a ∈ run, Complete mt19937 nin nout a.1 (run.map Prod.snd)

/-- No batch becomes complete in two stretches. -/
def CompleteOnce (js : List (Nat × Nat)) : Prop :=
  (stretches Prod.fst js).Pairwise fun run run' => Completes mt19937 nin nout run → Completes mt19937 nin nout run' →
    ∀ a ∈ run, ∀ b ∈ run', a.1 ≠ b.1

end

variable {nin nout pktSize nodeId : Nat} {S : Nat → Nat → Buffer} {js : List (Nat × Nat)}

private def batchOf (run : List (Nat × Nat)) : Nat := (run.headD (0, 0)).1

private theorem batchOf_eq {run : List (Nat × Nat)} (h : run ∈ stretches Prod.fst js) {a : Nat × Nat} (ha : a ∈ run) :
    batchOf run = a.1 := by
  obtain _ | ⟨c, run⟩ := run
  · cases ha
  · exact key_eq_of_mem_stretches h List.mem_cons_self ha

private theorem exists_mem_stretch {run : List (Nat × Nat)} (h : run ∈ stretches Prod.fst js) :
    ∃ a ∈ run, a ∈ js ∧ batchOf run = a.1 := by
  obtain ⟨a, ha⟩ := List.exists_mem_of_ne_nil run (ne_nil_of_mem_stretches h)
  exact ⟨a, ha, mem_of_mem_stretches h ha, batchOf_eq h ha⟩

private theorem completes_iff {run : List (Nat × Nat)} (h : run ∈ stretches Prod.fst js) :
    Completes mt19937 nin nout run ↔ Complete mt19937 nin nout (batchOf run) (run.map Prod.snd) := by
  constructor
  · intro hc
    obtain ⟨a, ha, _, he⟩ := exists_mem_stretch h
    rw [he]
    exact hc a ha
  · intro hc a ha
    rw [← batchOf_eq h ha]
    exact hc

private theorem stretch_ids {N : Nat} {run : List (Nat × Nat)} (hnodup : js.Nodup) (hlt : ∀ a ∈ js, a.2 < N)
    (h : run ∈ stretches Prod.fst js) : (run.map Prod.snd).Nodup ∧ (run.map Prod.snd).length ≤ N := by
  have hrun : run.Nodup := by
    rw [← flatten_stretches Prod.fst js] at hnodup
    exact (List.nodup_flatten.mp hnodup).1 run h
  have hids : (run.map Prod.snd).Nodup := by
    apply hrun.map_on
    intro a ha b hb he
    exact Prod.ext (key_eq_of_mem_stretches h ha hb) he
  refine ⟨hids, ?_⟩
  have hsub : ∀ g ∈ run.map Prod.snd, g ∈ List.range N := by
    intro g hg
    obtain ⟨a, ha, rfl⟩ := List.mem_map.mp hg
    exact List.mem_range.mpr (hlt a (mem_of_mem_stretches h ha))
  have hle := (hids.subperm hsub).length_le
  rwa [List.length_range] at hle

/-- The receiver holds the packets of the last stretch, and in the history the batches before it. -/
private structure AtStretch (mt19937 : Nat → Nat → UInt32) (nin nout pktSize nodeId : Nat) (S : Nat → Nat → Buffer)
    (left : List (List (Nat × Nat))) (run : List (Nat × Nat)) (rx : V2xReceiver) : Prop where
  collected : Collected mt19937 nin nout pktSize nodeId S (batchOf run) (run.map Prod.snd) rx
  history : rx.history = ((2 ^ 8 - 1) :: left.map batchOf).rtake (kMaxHistorySize - 1)

private def Stands (mt19937 : Nat → Nat → UInt32) (nin nout pktSize nodeId : Nat) (S : Nat → Nat → Buffer)
    (js : List (Nat × Nat)) (rx : V2xReceiver) : Prop :=
  (js = [] ∧ rx.Accepts pktSize ∧ rx.curNodeId = -1) ∨
    ∃ left run, stretches Prod.fst js = left ++ [run] ∧ AtStretch mt19937 nin nout pktSize nodeId S left run rx

private theorem Stands.accepts {rx : V2xReceiver} (h : Stands mt19937 nin nout pktSize nodeId S js rx) :
    rx.Accepts pktSize := by
  rcases h with ⟨_, hrx, _⟩ | ⟨_, _, _, hat⟩
  · exact hrx
  · exact hat.collected.accepts

private theorem AtStretch.same {left : List (List (Nat × Nat))} {run : List (Nat × Nat)} {b : Nat × Nat}
    {rx : V2xReceiver} {frame : Frame} (h : AtStretch mt19937 nin nout pktSize nodeId S left run rx)
    (hs : stretches Prod.fst (js ++ [b]) = left ++ [run ++ [b]]) (hrun : batchOf run = b.1)
    (hnodup : (js ++ [b]).Nodup) (hlt : ∀ a ∈ js ++ [b], a.2 < nin + nout)
    (hf : IsFrame mt19937 nin nout pktSize nodeId S b frame) :
    ∃ rx' done, rx.onFrame mt19937 frame = some (rx', done) ∧
      AtStretch mt19937 nin nout pktSize nodeId S left (run ++ [b]) rx' ∧
      (done = true ↔ ¬ Complete mt19937 nin nout b.1 (run.map Prod.snd) ∧
        Complete mt19937 nin nout b.1 ((run ++ [b]).map Prod.snd)) ∧
      (done = true → Delivers nin pktSize S b.1 rx'.outputPkts) := by
  have hmem : run ++ [b] ∈ stretches Prod.fst (js ++ [b]) := by simp [hs]
  have hbatch : batchOf (run ++ [b]) = b.1 := batchOf_eq hmem (by simp)
  obtain ⟨hids, hlen⟩ := stretch_ids hnodup hlt hmem
  rw [List.map_append, List.map_singleton] at hids hlen ⊢
  have hc := h.collected
  rw [hrun] at hc
  have hcont : ({ rx with seqno := frame.seqno, mcs := frame.mcs } : V2xReceiver).Continues
      (CodingHdr.read frame.bytes) :=
    ⟨by rw [hf.nodeId_eq]; exact hc.curNodeId_eq, by rw [hf.isPacket.batchId_eq, Nat.mod_mod]; exact hc.curBatchId_eq⟩
  have henter := V2xReceiver.enter_continues hcont
  obtain ⟨rx', done, hframe, hc', hdone, hdel⟩ := onFrame_collected hc.accepts
    (by
      rw [henter]
      exact ⟨hc.accepts.congr rfl rfl, hc.curNodeId_eq, hc.curBatchId_eq, hc.pktNum_le, hc.decoded_iff, hc.waiting⟩)
    hids hlen hf
  refine ⟨rx', done, hframe, ⟨?_, ?_⟩, hdone, hdel⟩
  · rw [hbatch, List.map_append, List.map_singleton]
    exact hc'
  · rw [(V2xReceiver.onFrame_batch hc.accepts hf.size_eq hframe).2, henter]
    exact h.history

private theorem Stands.new {b : Nat × Nat} {rx : V2xReceiver} {frame : Frame} (hnin : 1 ≤ nin)
    (h : Stands mt19937 nin nout pktSize nodeId S js rx) (hlast : ∀ a ∈ js.getLast?, a.1 ≠ b.1)
    (hs : stretches Prod.fst (js ++ [b]) = stretches Prod.fst js ++ [[b]])
    (hnodup : (js ++ [b]).Nodup) (hlt : ∀ a ∈ js ++ [b], a.2 < nin + nout) (hm : ∀ a ∈ js ++ [b], a.1 < 2 ^ 8 - 1)
    (hf : IsFrame mt19937 nin nout pktSize nodeId S b frame) :
    ∃ rx' done, rx.onFrame mt19937 frame = some (rx', done) ∧
      AtStretch mt19937 nin nout pktSize nodeId S (stretches Prod.fst js) [b] rx' ∧
      (done = true ↔ Complete mt19937 nin nout b.1 [b.2]) ∧
      (done = true → Delivers nin pktSize S b.1 rx'.outputPkts) := by
  have hmem : [b] ∈ stretches Prod.fst (js ++ [b]) := by simp [hs]
  obtain ⟨hids, hlen⟩ := stretch_ids hnodup hlt hmem
  have hb : b.1 < 2 ^ 8 - 1 := hm b (by simp)
  have hnum : ((CodingHdr.read frame.bytes).batchId : Nat) % 2 ^ 8 = b.1 := by
    rw [hf.isPacket.batchId_eq, Nat.mod_mod, Nat.mod_eq_of_lt (by omega)]
  let rx₀ : V2xReceiver := { rx with seqno := frame.seqno, mcs := frame.mcs }
  have hstart : ¬ rx₀.Continues (CodingHdr.read frame.bytes) ∧ (rx₀.enter (CodingHdr.read frame.bytes)).history =
      ((2 ^ 8 - 1) :: (stretches Prod.fst js).map batchOf).rtake (kMaxHistorySize - 1) := by
    rcases h with ⟨rfl, _, hnode⟩ | ⟨left, run, hjs, hat⟩
    · have hother : rx₀.curNodeId ≠ ((CodingHdr.read frame.bytes).nodeId : Nat) := by
        change rx.curNodeId ≠ _
        omega
      exact ⟨fun hc => hother hc.1, V2xReceiver.enter_history_node hother (by omega)⟩
    · have hrun : run ∈ stretches Prod.fst js := by simp [hjs]
      obtain ⟨a, ha, hajs, hbatch⟩ := exists_mem_stretch hrun
      have hcur : rx₀.curBatchId = batchOf run := by
        have := hat.collected.curBatchId_eq
        rwa [Nat.mod_eq_of_lt (by have := hm a (List.mem_append_left _ hajs); omega)] at this
      have hne : batchOf run ≠ b.1 := by
        obtain ⟨c, hc⟩ := Option.ne_none_iff_exists'.mp fun hn =>
          List.ne_nil_of_mem hajs (List.getLast?_eq_none_iff.mp hn)
        rw [batchOf_eq hrun (mem_last_stretch hjs hc)]
        exact hlast c hc
      have hnode : rx₀.curNodeId = ((CodingHdr.read frame.bytes).nodeId : Nat) := by
        rw [hf.nodeId_eq]
        exact hat.collected.curNodeId_eq
      refine ⟨fun hc => hne ?_, ?_⟩
      · rw [← hcur, hc.2, hnum]
      · have hhist : rx₀.history = ((2 ^ 8 - 1) :: left.map batchOf).rtake (kMaxHistorySize - 1) := hat.history
        rw [V2xReceiver.enter_history_batch hhist hnode (by rw [hnum, hcur]; exact hne.symm), hcur, hjs,
          List.map_append, List.map_singleton, List.cons_append]
  obtain ⟨hnew, hhist⟩ := hstart
  have hrx : rx₀.Accepts pktSize := h.accepts.congr rfl rfl
  obtain ⟨rx', done, hframe, hc', hdone, hdel⟩ := onFrame_collected h.accepts
    (collected_enter hnin hrx hnew hf.nodeId_eq (by rw [hf.isPacket.batchId_eq, Nat.mod_mod]))
    (show ([] ++ [b.2]).Nodup from hids) hlen hf
  refine ⟨rx', done, hframe, ⟨hc', ?_⟩, ?_, hdel⟩
  · rw [(V2xReceiver.onFrame_batch h.accepts hf.size_eq hframe).2]
    exact hhist
  · rw [hdone]
    exact and_iff_right (not_complete_nil hnin b.1)

open scoped Classical in
/-- The batches of the stretches that suffice, in their order. -/
private noncomputable def completed (mt19937 : Nat → Nat → UInt32) (nin nout : Nat) (ss : List (List (Nat × Nat))) :
    List Nat :=
  (ss.filter fun run => Complete mt19937 nin nout (batchOf run) (run.map Prod.snd)).map batchOf

open scoped Classical in
private theorem completed_concat (ss : List (List (Nat × Nat))) (run : List (Nat × Nat)) :
    completed mt19937 nin nout (ss ++ [run]) = completed mt19937 nin nout ss ++
      if Complete mt19937 nin nout (batchOf run) (run.map Prod.snd) then [batchOf run] else [] := by
  rw [completed, List.filter_append, List.map_append]
  congr 1
  by_cases hc : Complete mt19937 nin nout (batchOf run) (run.map Prod.snd)
  · simp [hc]
  · simp [hc]

private theorem deliveries_run {slack : Nat} (hslack : sizeofCodingHdr ≤ slack) (hnin : 1 ≤ nin)
    (pkt : Nat × Nat → Frame) (js : List (Nat × Nat)) (hlt : ∀ a ∈ js, a.2 < nin + nout)
    (hm : ∀ a ∈ js, a.1 < 2 ^ 8 - 1) (hnodup : js.Nodup)
    (hf : ∀ a ∈ js, IsFrame mt19937 nin nout pktSize nodeId S a (pkt a)) :
    ∃ rx ds, V2xReceiver.deliveries mt19937 pkt (V2xReceiver.new pktSize slack) js = some (rx, ds) ∧
      Stands mt19937 nin nout pktSize nodeId S js rx ∧
      ds.map Prod.fst = completed mt19937 nin nout (stretches Prod.fst js) ∧
      ∀ d ∈ ds, Delivers nin pktSize S d.1 d.2 := by
  induction js using List.reverseRecOn with
  | nil =>
    exact ⟨_, [], rfl, Or.inl ⟨rfl, V2xReceiver.accepts_new hslack, rfl⟩, rfl, fun d hd => absurd hd List.not_mem_nil⟩
  | append_singleton js b ih =>
    obtain ⟨rx, ds, hrun, hstands, hds, hdel⟩ := ih (fun a ha => hlt a (List.mem_append_left _ ha))
      (fun a ha => hm a (List.mem_append_left _ ha)) (List.nodup_append.mp hnodup).1
      fun a ha => hf a (List.mem_append_left _ ha)
    have hb := hf b (by simp)
    have hgrow {rx' : V2xReceiver} {done : Bool} (hdel' : done = true → Delivers nin pktSize S b.1 rx'.outputPkts) :
        ∀ d ∈ (if done then ds ++ [(b.1, rx'.outputPkts)] else ds), Delivers nin pktSize S d.1 d.2 := by
      intro d hd
      cases done with
      | false => exact hdel d hd
      | true =>
        rcases List.mem_append.mp hd with hd | hd
        · exact hdel d hd
        · rw [List.mem_singleton.mp hd]
          exact hdel' rfl
    rcases stretches_concat Prod.fst js b with ⟨left, run, hs, hkey, hs'⟩ | ⟨hlast, hs'⟩
    · have hmem : run ∈ stretches Prod.fst js := by simp [hs]
      obtain ⟨a, ha, hajs, hbatch⟩ := exists_mem_stretch hmem
      have hat : AtStretch mt19937 nin nout pktSize nodeId S left run rx := by
        rcases hstands with ⟨rfl, _, _⟩ | ⟨left', run', hs₁, hat⟩
        · cases hajs
        · obtain ⟨rfl, hrun⟩ := List.append_inj' (hs.symm.trans hs₁) rfl
          obtain rfl : run = run' := by simpa using hrun
          exact hat
      have hrunb : batchOf run = b.1 := hbatch.trans (hkey a ha)
      have hrunb' : batchOf (run ++ [b]) = b.1 :=
        @batchOf_eq (js ++ [b]) _ (by simp [hs']) b (by simp)
      obtain ⟨rx', done, hframe, hat', hdone, hdel'⟩ := hat.same hs' hrunb hnodup hlt hb
      refine ⟨rx', _, V2xReceiver.deliveries_concat hrun hframe, Or.inr ⟨left, run ++ [b], hs', hat'⟩, ?_, hgrow hdel'⟩
      rw [hs', completed_concat, hrunb']
      rw [hs, completed_concat, hrunb] at hds
      by_cases hold : Complete mt19937 nin nout b.1 (run.map Prod.snd)
      · have hnew : Complete mt19937 nin nout b.1 ((run ++ [b]).map Prod.snd) := by
          rw [List.map_append]
          exact hold.snoc b.2
        rw [if_pos hold] at hds
        rw [if_neg (fun ht => (hdone.mp ht).1 hold), if_pos hnew, hds]
      · rw [if_neg hold, List.append_nil] at hds
        by_cases hnew : Complete mt19937 nin nout b.1 ((run ++ [b]).map Prod.snd)
        · rw [if_pos (hdone.mpr ⟨hold, hnew⟩), if_pos hnew, List.map_append, hds]
          rfl
        · rw [if_neg (fun ht => hnew (hdone.mp ht).2), if_neg hnew, List.append_nil, hds]
    · obtain ⟨rx', done, hframe, hat', hdone, hdel'⟩ := hstands.new hnin hlast hs' hnodup hlt hm hb
      refine ⟨rx', _, V2xReceiver.deliveries_concat hrun hframe, Or.inr ⟨_, [b], hs', hat'⟩, ?_, hgrow hdel'⟩
      have hone : batchOf [b] = b.1 := rfl
      rw [hs', completed_concat, ← hds, List.map_singleton, hone]
      by_cases hnew : Complete mt19937 nin nout b.1 [b.2]
      · rw [if_pos (hdone.mpr hnew), if_pos hnew, List.map_append]
        rfl
      · rw [if_neg (fun ht => hnew (hdone.mp ht)), if_neg hnew, List.append_nil]

private theorem completed_nodup (js : List (Nat × Nat)) :
    (completed mt19937 nin nout (stretches Prod.fst js)).Nodup ↔ CompleteOnce mt19937 nin nout js := by
  rw [completed, List.Nodup, List.pairwise_map, List.pairwise_filter]
  refine List.Pairwise.iff_of_mem fun {run run'} hrun hrun' => ?_
  simp only [decide_eq_true_eq]
  rw [← completes_iff hrun, ← completes_iff hrun']
  refine imp_congr_right fun _ => imp_congr_right fun _ => ?_
  constructor
  · intro hne a ha b hb hab
    exact hne (by rw [batchOf_eq hrun ha, batchOf_eq hrun' hb, hab])
  · intro hne he
    obtain ⟨a, ha, _, hba⟩ := exists_mem_stretch hrun
    obtain ⟨b, hb, _, hbb⟩ := exists_mem_stretch hrun'
    exact hne a ha b hb (by rw [← hba, ← hbb, he])

private theorem mem_recent {left : List (List (Nat × Nat))} {run : List (Nat × Nat)} {m : Nat}
    (hs : stretches Prod.fst js = left ++ [run]) :
    m ∈ recentlyLeft js ↔ m ∈ (left.rtake (kMaxHistorySize - 1)).map batchOf := by
  have hmem : ∀ r ∈ left.rtake (kMaxHistorySize - 1), r ∈ stretches Prod.fst js := by
    intro r hr
    rw [hs]
    exact List.mem_append_left _ (List.mem_of_mem_drop hr)
  rw [recentlyLeft, hs, List.dropLast_concat]
  constructor
  · intro h
    obtain ⟨a, ha, rfl⟩ := List.mem_map.mp h
    obtain ⟨r, hr, har⟩ := List.mem_flatten.mp ha
    exact List.mem_map.mpr ⟨r, hr, batchOf_eq (hmem r hr) har⟩
  · intro h
    obtain ⟨r, hr, rfl⟩ := List.mem_map.mp h
    obtain ⟨a, ha, _, hba⟩ := exists_mem_stretch (hmem r hr)
    rw [hba]
    exact List.mem_map_of_mem (List.mem_flatten_of_mem hr ha)

private theorem AtStretch.mem_history {left : List (List (Nat × Nat))} {run : List (Nat × Nat)} {rx : V2xReceiver}
    (h : AtStretch mt19937 nin nout pktSize nodeId S left run rx) (hs : stretches Prod.fst js = left ++ [run]) {m : Nat}
    (hm : m < 2 ^ 8 - 1) : m ∈ rx.history ↔ m ∈ recentlyLeft js := by
  rw [h.history, mem_recent hs, List.rtake_eq_reverse_take_reverse, List.rtake_eq_reverse_take_reverse,
    List.map_reverse, List.map_take, List.map_reverse, List.mem_reverse, List.mem_reverse, List.reverse_cons,
    List.take_append, List.mem_append]
  refine or_iff_left fun hlast => ?_
  have : m = 2 ^ 8 - 1 := List.mem_singleton.mp (List.mem_of_mem_take hlast)
  omega

private theorem current_not_recent (js : List (Nat × Nat)) (h : NoneFromHistory js) :
    ∀ a ∈ js.getLast?, a.1 ∉ recentlyLeft js := by
  induction js using List.reverseRecOn with
  | nil =>
    intro a ha
    cases ha
  | append_singleton js b ih =>
    intro a ha
    obtain rfl : b = a := by simpa using ha
    have hjs : NoneFromHistory js := by
      rintro pre a c suf rfl hc
      exact h pre a c (suf ++ [b]) (by simp) hc
    rcases stretches_concat Prod.fst js b with ⟨left, run, hs, hkey, hs'⟩ | ⟨hlast, hs'⟩
    · obtain ⟨c, hc⟩ : ∃ c, c ∈ js.getLast? := by
        apply Option.ne_none_iff_exists'.mp
        rintro hn
        rw [List.getLast?_eq_none_iff.mp hn] at hs
        exact absurd hs (by simp [stretches])
      rw [← hkey c (mem_last_stretch hs hc), mem_recent hs', ← mem_recent hs]
      exact ih hjs c hc
    · rw [mem_recent hs']
      rcases List.eq_nil_or_concat js with rfl | ⟨pre, c, rfl⟩
      · exact List.not_mem_nil
      · simp only [List.concat_eq_append] at hlast hs' h hjs ⊢
        have hc : c ∈ (pre ++ [c]).getLast? := by simp
        obtain ⟨left, run, hs, hcr⟩ := exists_last_stretch Prod.fst hc
        have hrun : batchOf run = c.1 := batchOf_eq (by rw [hs]; simp) hcr
        intro hb
        rw [hs, kMaxHistorySize, List.rtake_concat_succ, List.map_append, List.map_singleton, List.mem_append,
          List.mem_singleton, hrun] at hb
        refine hlast c hc (Or.elim hb (fun hold => ?_) Eq.symm)
        refine h pre c b [] (by simp) ((mem_recent hs).mpr ?_)
        obtain ⟨r, hr, hrb⟩ := List.mem_map.mp hold
        refine List.mem_map.mpr ⟨r, ?_, hrb⟩
        rw [List.rtake_eq_reverse_take_reverse, List.mem_reverse] at hr ⊢
        exact List.take_subset_take_left _ (by decide) hr

private theorem atMostOnce_of {slack : Nat} (hslack : sizeofCodingHdr ≤ slack) (hnin : 1 ≤ nin)
    (pkt : Nat × Nat → Frame) (js : List (Nat × Nat)) (hlt : ∀ a ∈ js, a.2 < nin + nout)
    (hm : ∀ a ∈ js, a.1 < 2 ^ 8 - 1) (hnodup : js.Nodup)
    (hf : ∀ a ∈ js, IsFrame mt19937 nin nout pktSize nodeId S a (pkt a)) (hnone : NoneFromHistory js)
    (honce : CompleteOnce mt19937 nin nout js) :
    AtMostOnce mt19937 nin pktSize S (V2xReceiver.new pktSize slack) pkt js := by
  obtain ⟨rx, ds, hrun, _, hds, hdel⟩ := deliveries_run hslack hnin pkt js hlt hm hnodup hf
  refine ⟨⟨rx, ds, hrun, by rw [hds]; exact (completed_nodup js).mpr honce, hdel⟩, ?_⟩
  rintro pre b suf rfl
  obtain ⟨rx, ds, hrun, hstands, _⟩ := deliveries_run hslack hnin pkt pre
      (fun a ha => hlt a (List.mem_append_left _ ha))
    (fun a ha => hm a (List.mem_append_left _ ha)) (List.nodup_append.mp hnodup).1
    fun a ha => hf a (List.mem_append_left _ ha)
  refine ⟨rx, ds, hrun, fun hb => ?_⟩
  exfalso
  rcases hstands with ⟨rfl, _, _⟩ | ⟨left, run, hs, hat⟩
  · cases hrun
    cases hb
  · -- the history lists no batch that may arrive
    rw [hat.mem_history hs (hm b (by simp))] at hb
    rcases List.eq_nil_or_concat pre with rfl | ⟨pre, a, rfl⟩
    · exact absurd hs (by simp [stretches])
    · simp only [List.concat_eq_append] at hb hnone
      have hab := hnone pre a b suf (by simp) hb
      refine current_not_recent (pre ++ [a]) ?_ a (by simp) (hab ▸ hb)
      intro p c d s he hd
      exact hnone p c d (s ++ b :: suf) (by rw [he]; simp) hd

/-- At-most-once delivery under late packets, in every order of arrival: it needs room in `recv_buf`, no packet of a
batch left last, and no batch that becomes complete in two stretches. -/
theorem recv_at_most_once_iff (slack : Nat) (hnin : 1 ≤ nin) (pkt : Nat × Nat → Frame) (js : List (Nat × Nat))
    (hlt : ∀ a ∈ js, a.2 < nin + nout) (hm : ∀ a ∈ js, a.1 < 2 ^ 8 - 1) (hnodup : js.Nodup)
    (hf : ∀ a ∈ js, IsFrame mt19937 nin nout pktSize nodeId S a (pkt a)) :
    AtMostOnce mt19937 nin pktSize S (V2xReceiver.new pktSize slack) pkt js ↔
      (js = [] ∨ sizeofCodingHdr ≤ slack) ∧ NoneFromHistory js ∧ CompleteOnce mt19937 nin nout js := by
  constructor
  · intro h
    have hroom : js = [] ∨ sizeofCodingHdr ≤ slack := by
      rcases js with _ | ⟨a, js⟩
      · exact Or.inl rfl
      · right
        by_contra hslack
        obtain ⟨rx, ds, hrun, _⟩ := h.once
        have hcalls := @V2xReceiver.recvCalls_deliveries mt19937 pkt (a :: js) (V2xReceiver.new pktSize slack)
        rw [hrun, V2xReceiver.recvCalls_eq_serve _ _ _ (by simp), List.map_cons,
          V2xReceiver.serve_noRoom _ (not_le.mp hslack) (hf a List.mem_cons_self).size_eq] at hcalls
        cases hcalls
    refine ⟨hroom, ?_, ?_⟩
    · rintro pre a b suf rfl hb
      have hslack := hroom.resolve_left (by simp)
      obtain ⟨rx, ds, hrun, hstands, _⟩ := deliveries_run hslack hnin pkt (pre ++ [a])
        (fun c hc => hlt c (by simp at hc ⊢; tauto)) (fun c hc => hm c (by simp at hc ⊢; tauto))
        (hnodup.sublist (by simp)) fun c hc => hf c (by simp at hc ⊢; tauto)
      obtain ⟨rx₁, ds₁, hrun₁, hrejects⟩ := h.rejects (pre ++ [a]) b suf (by simp)
      rw [hrun, Option.some_inj, Prod.mk.injEq] at hrun₁
      obtain ⟨rfl, rfl⟩ := hrun₁
      rcases hstands with ⟨he, _, _⟩ | ⟨left, run, hs, hat⟩
      · exact absurd he (by simp)
      · obtain ⟨rx', done, hframe, hcur, _⟩ := hrejects ((hat.mem_history hs (hm b (by simp))).mpr hb)
        have hfb := hf b (by simp)
        have hnext := (V2xReceiver.onFrame_batch hat.collected.accepts hfb.size_eq hframe).1
        have hrun : run ∈ stretches Prod.fst (pre ++ [a]) := by simp [hs]
        have ha : batchOf run = a.1 := batchOf_eq hrun (mem_last_stretch hs (by simp))
        have hma := hm a (by simp)
        have hmb := hm b (by simp)
        rw [hcur, hat.collected.curBatchId_eq, hfb.isPacket.batchId_eq, Nat.mod_mod, ha, Nat.mod_eq_of_lt (by omega),
          Nat.mod_eq_of_lt (by omega)] at hnext
        exact hnext
    · rcases hroom with rfl | hslack
      · exact List.Pairwise.nil
      · obtain ⟨rx, ds, hrun, _, hds, _⟩ := deliveries_run hslack hnin pkt js hlt hm hnodup hf
        obtain ⟨rx₁, ds₁, hrun₁, hnd, _⟩ := h.once
        rw [hrun, Option.some_inj, Prod.mk.injEq] at hrun₁
        obtain ⟨rfl, rfl⟩ := hrun₁
        rw [hds] at hnd
        exact (completed_nodup js).mp hnd
  · rintro ⟨hroom, hnone, honce⟩
    rcases hroom with rfl | hslack
    · refine ⟨⟨_, [], rfl, List.nodup_nil, fun d hd => absurd hd List.not_mem_nil⟩, fun pre b suf he => ?_⟩
      exact absurd he (by simp)
    · exact atMostOnce_of hslack hnin pkt js hlt hm hnodup hf hnone honce

/-- A packet of batch 0 arrives after one of batch 1, of which the receiver has heard nothing before. -/
theorem recv_at_most_once_iff_late :
    AtMostOnce countingStream 1 1 markedBatches (V2xReceiver.new 1 5) (frameOf countingStream 1 1 1 9 markedBatches)
      [(1, 0), (0, 0)] := by
  refine (@recv_at_most_once_iff countingStream 1 1 1 9 markedBatches 5 le_rfl _ [(1, 0), (0, 0)] (by decide)
      (by decide) (by decide)
    (isFrame_pair (by decide) (by decide))).mpr ⟨Or.inr (by decide), fun pre a b suf he hb => ?_, ?_⟩
  · obtain ⟨rfl, rfl, rfl⟩ := consecutive_pair he
    exact absurd hb (by decide)
  · have hs : stretches Prod.fst [(1, 0), (0, 0)] = [[(1, 0)], [(0, 0)]] := by decide
    rw [CompleteOnce, hs]
    refine List.pairwise_pair.mpr fun _ _ a ha b hb => ?_
    rw [List.mem_singleton.mp ha, List.mem_singleton.mp hb]
    decide

/-- Packet 0 of batch 1, packet 0 of batch 2, then packet 1 of batch 1: batch 1 is returned twice. -/
theorem recv_returns_twice :
    ∃ rx o₁ o₂ o₃, V2xReceiver.recvCalls countingStream 4 (V2xReceiver.new 1 5)
        ([(1, 0), (2, 0), (1, 1)].map (frameOf countingStream 1 1 1 9 markedBatches)) = some (rx, [o₁, o₂, o₃]) ∧
      Delivers 1 1 markedBatches 1 o₁ ∧ Delivers 1 1 markedBatches 2 o₂ ∧ Delivers 1 1 markedBatches 1 o₃ := by
  have hf : ∀ a : Nat × Nat, a.2 < 2 →
      IsFrame countingStream 1 1 1 9 markedBatches a (frameOf countingStream 1 1 1 9 markedBatches a) :=
    fun a ha => isFrame_frameOf (by decide) (by decide) (by decide) ha
  generalize frameOf countingStream 1 1 1 9 markedBatches = pkt at hf ⊢
  have ho : Orderly 2 [(1, 0), (2, 0)] := by
    refine ⟨by decide, by decide, fun pre a b suf he => ?_⟩
    obtain ⟨rfl, rfl, rfl⟩ := consecutive_pair he
    decide
  have hparity : Complete countingStream 1 1 1 [1] := by
    rw [complete_iff]
    intro v hv r hr
    obtain rfl : r = 0 := by omega
    have hs := hv 0 (by decide)
    have hone : receivedColumns countingStream (1 % 2 ^ 8) 1 1 (fun k => [1].getD k 0) 0 0 = 1 := by decide
    rwa [Finset.sum_range_one, hone, mul_one] at hs
  have hnew : Held countingStream 1 1 1 9 markedBatches [] (V2xReceiver.new 1 5) :=
    ⟨V2xReceiver.accepts_new (by decide), rfl, rfl⟩
  have ho₁ : Orderly 2 ([] ++ [(1, 0)]) := Orderly.init (b := (2, 0)) ho
  obtain ⟨rx₁, d₁, h₁, hheld₁, _, hdone₁, hdel₁⟩ := held_step le_rfl ho₁ hnew (hf (1, 0) (by decide))
  obtain ⟨rx₂, d₂, h₂, hheld₂, _, hdone₂, hdel₂⟩ := held_step le_rfl ho hheld₁ (hf (2, 0) (by decide))
  have hnil (m : Nat) : ¬ Complete countingStream 1 1 m [] := not_complete_nil le_rfl m
  obtain rfl : d₁ = true := hdone₁.mpr ⟨hnil 1, complete_of_sources (by decide)⟩
  obtain rfl : d₂ = true := hdone₂.mpr ⟨hnil 2, complete_of_sources (by decide)⟩
  have hf₃ := hf (1, 1) (by decide)
  have hback : ¬ ({ rx₂ with seqno := (pkt (1, 1)).seqno, mcs := (pkt (1, 1)).mcs } : V2xReceiver).Continues
      (CodingHdr.read (pkt (1, 1)).bytes) := by
    rintro ⟨_, hc⟩
    rw [hf₃.isPacket.batchId_eq] at hc
    have hcur : rx₂.curBatchId = 2 % 2 ^ 8 := Collected.curBatchId_eq hheld₂
    rw [show rx₂.curBatchId = _ from hc] at hcur
    exact absurd hcur (by decide)
  obtain ⟨rx₃, d₃, h₃, _, hdone₃, hdel₃⟩ := onFrame_collected hheld₂.accepts
    (collected_enter le_rfl (hheld₂.accepts.congr rfl rfl) hback hf₃.nodeId_eq
      (by rw [hf₃.isPacket.batchId_eq, Nat.mod_mod])) (by decide)
    (by decide) hf₃
  obtain rfl : d₃ = true := hdone₃.mpr ⟨hnil 1, hparity⟩
  have h₀ : (V2xReceiver.new 1 5).serve countingStream [] = some (V2xReceiver.new 1 5, []) := rfl
  have hserve := V2xReceiver.serve_snoc (V2xReceiver.serve_snoc (V2xReceiver.serve_snoc h₀ h₁) h₂) h₃
  refine ⟨rx₃, rx₁.outputPkts, rx₂.outputPkts, rx₃.outputPkts, ?_, hdel₁ rfl, hdel₂ rfl, hdel₃ rfl⟩
  rw [V2xReceiver.recvCalls_eq_serve _ _ _ (by simp)]
  exact hserve

end Soar.Communication
