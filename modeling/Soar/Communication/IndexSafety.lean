import Soar.Communication.RepeatedPackets
import Soar.Communication.LateArrival
import Soar.Communication.Solvability

/-! Which frames take `recv` and `decode` out of their tables. -/
namespace Soar.Communication
open Soar.Library Soar.Library.ColumnReduction Finset

variable {mt19937 : Nat → Nat → UInt32}

namespace V2xReceiver

/-- The frame continues a node and batch of which `kMaxCodingSize` packets are held undecoded. -/
def Overfills (rx : V2xReceiver) (frame : Frame) : Prop :=
  rx.Continues (CodingHdr.read frame.bytes) ∧ rx.decoded = false ∧ kMaxCodingSize ≤ rx.pktNum

/-- The frame after a full table is written behind it. -/
theorem onFrame_overfilled {pktSize : Nat} {rx : V2xReceiver} {frame : Frame} (hrx : rx.Accepts pktSize)
    (hsize : frame.size = pktSize + sizeofCodingHdr) (h : rx.Overfills frame) : rx.onFrame mt19937 frame = none := by
  obtain ⟨hc, hdec, hfull⟩ := h
  have hc' : ({ rx with seqno := frame.seqno, mcs := frame.mcs } : V2xReceiver).Continues
      (CodingHdr.read frame.bytes) := hc
  rw [onFrame_accepted hrx hsize, enter_continues hc']
  dsimp only
  rw [hdec, if_neg Bool.false_ne_true]
  exact collect_full _ _ hfull

/-- Every other accepted frame stays inside the tables. -/
theorem onFrame_inside (mt19937 : Nat → Nat → UInt32) {pktSize : Nat} {rx : V2xReceiver} {frame : Frame}
    (hrx : rx.Accepts pktSize) (hsize : frame.size = pktSize + sizeofCodingHdr) (h : ¬ rx.Overfills frame) :
    ∃ rx' done, rx.onFrame mt19937 frame = some (rx', done) := by
  let rx₀ : V2xReceiver := { rx with seqno := frame.seqno, mcs := frame.mcs }
  rw [onFrame_accepted hrx hsize]
  change ∃ rx' done, (if (rx₀.enter (CodingHdr.read frame.bytes)).decoded then _ else _) = _
  by_cases hdec : (rx₀.enter (CodingHdr.read frame.bytes)).decoded
  · exact ⟨_, _, if_pos hdec⟩
  · have hroom : (rx₀.enter (CodingHdr.read frame.bytes)).pktNum < kMaxCodingSize := by
      by_cases hc : rx₀.Continues (CodingHdr.read frame.bytes)
      · rw [enter_continues hc] at hdec ⊢
        by_contra hn
        exact h ⟨hc, by simpa using hdec, not_lt.mp hn⟩
      · rw [(enter_new hc).1]
        decide
    obtain ⟨rx', done, hrun, _⟩ := collect_stored mt19937 _ frame.bytes hroom
    exact ⟨rx', done, (if_neg hdec).trans hrun⟩

end V2xReceiver

/-- What `recv` tells the batches apart by: the node and the batch number on the air. -/
def airBatch (frame : Frame) : Nat × Nat :=
  ((CodingHdr.read frame.bytes).nodeId, ((CodingHdr.read frame.bytes).batchId : Nat) % 2 ^ 8)

def headers (run : List Frame) : List CodingHdr := run.map fun frame => CodingHdr.read frame.bytes

section
variable (mt19937 : Nat → Nat → UInt32)

/-- The first `k` frames of a stretch suffice for their batch. -/
def DecodesAt (run : List Frame) (k : Nat) : Prop :=
  k ≤ run.length ∧ ∃ first ∈ (headers run).head?, ∃ last ∈ (headers (run.take k)).getLast?,
    (last.nin : Nat) ≤ k ∧ Solves mt19937 first (headers (run.take k))

/-- A stretch of more than `kMaxCodingSize` frames decodes within the first `kMaxCodingSize`. -/
def DecodesInTime (run : List Frame) : Prop := kMaxCodingSize < run.length →
    ∃ k ≤ kMaxCodingSize, DecodesAt mt19937 run k

/-- No row index leaves its table, and at most `kMaxCodingSize` packets are held, in each state of the run. -/
def RowsInRange (rx₀ : V2xReceiver) (frames : List Frame) : Prop :=
  ∀ pre suf, frames = pre ++ suf → ∃ rx outs, rx₀.serve mt19937 pre = some (rx, outs) ∧ rx.pktNum ≤ kMaxCodingSize

end

/-- Each of the first `kMaxCodingSize` frames names a packet of the batch that the first one describes. -/
def InBatch (run : List Frame) : Prop :=
  ∀ first ∈ (headers run).head?, Indexed first (headers (run.take kMaxCodingSize))

private theorem head_headers {run : List Frame} (more : List Frame) (h : run ≠ []) :
    (headers (run ++ more)).head? = (headers run).head? := by
  rw [headers, List.map_append, List.head?_append_of_ne_nil _ (by simpa using h)]
  rfl

private theorem decodesAt_append {run : List Frame} {k : Nat} (more : List Frame) (hk : k ≤ run.length) :
    DecodesAt mt19937 (run ++ more) k ↔ DecodesAt mt19937 run k := by
  rw [DecodesAt, DecodesAt, List.take_append_of_le_length hk, List.length_append]
  constructor
  · rintro ⟨_, first, hf, last, hl, h⟩
    have hne : run ≠ [] := by
      rintro rfl
      simp [headers] at hl
    exact ⟨hk, first, head_headers more hne ▸ hf, last, hl, h⟩
  · rintro ⟨_, first, hf, last, hl, h⟩
    have hne : run ≠ [] := by
      rintro rfl
      simp [headers] at hl
    exact ⟨by omega, first, (head_headers more hne).symm ▸ hf, last, hl, h⟩

/-- The receiver holds the frames of a stretch undecoded, and none of its beginnings suffices. -/
private structure Waits (mt19937 : Nat → Nat → UInt32) (run : List Frame) (rx : V2xReceiver) : Prop where
  pktNum_eq : rx.pktNum = run.length
  rows : ∀ k, (hk : k < (headers run).length) → CodingHdr.read (rx.inputPkts.row k) = (headers run)[k]
  unsolved : ∀ k, ¬ DecodesAt mt19937 run k

/-- The receiver is at the batch of a stretch. -/
private structure AtRun (mt19937 : Nat → Nat → UInt32) (pktSize : Nat) (run : List Frame) (rx : V2xReceiver) :
    Prop where
  accepts : rx.Accepts pktSize
  current : ∀ frame ∈ run, rx.Continues (CodingHdr.read frame.bytes)
  pktNum_le : rx.pktNum ≤ kMaxCodingSize
  waits : rx.decoded = false → Waits mt19937 run rx
  decoded : rx.decoded = true → InBatch run → ∃ k ≤ kMaxCodingSize, DecodesAt mt19937 run k

private theorem continues_iff {rx : V2xReceiver} {a b : Frame} (h : rx.Continues (CodingHdr.read a.bytes)) :
    rx.Continues (CodingHdr.read b.bytes) ↔ airBatch a = airBatch b := by
  rw [airBatch, airBatch, Prod.mk.injEq]
  constructor
  · rintro ⟨hn, hb⟩
    have hn' := h.1.symm.trans hn
    exact ⟨by omega, h.2.symm.trans hb⟩
  · rintro ⟨hn, hb⟩
    exact ⟨by rw [h.1, hn], by rw [h.2, hb]⟩

private theorem Waits.collect {pktSize : Nat} {run : List Frame} {frame : Frame} {rx rx' : V2xReceiver} {done : Bool}
    (hrx : rx.Accepts pktSize) (hdec : rx.decoded = false) (h : Waits mt19937 run rx)
    (hcur : ∀ a ∈ run ++ [frame], rx.Continues (CodingHdr.read a.bytes))
    (hrun : rx.collect mt19937 frame.bytes = some (rx', done)) : AtRun mt19937 pktSize (run ++ [frame]) rx' := by
  have hlt : rx.pktNum < kMaxCodingSize := by
    by_contra hn
    rw [V2xReceiver.collect_full rx frame.bytes (not_lt.mp hn)] at hrun
    cases hrun
  have hs := V2xReceiver.collect_some hrun
  have hnum := h.pktNum_eq
  have hlen' : (run ++ [frame]).length = rx.pktNum + 1 := by rw [List.length_append, hnum]; rfl
  have hlen : (headers (run ++ [frame])).length = rx.pktNum + 1 := by rw [headers, List.length_map, hlen']
  have hrows : ∀ k, (hk : k < (headers (run ++ [frame])).length) →
      CodingHdr.read (rx'.inputPkts.row k) = (headers (run ++ [frame]))[k] := by
    intro k hk
    rw [hs.inputPkts]
    by_cases hkn : k = rx.pktNum
    · have hlast : (headers (run ++ [frame]))[k] = CodingHdr.read frame.bytes := by simp [headers, hkn, hnum]
      rw [hlast, hkn, Function.update_self]
      apply read_congr
      intro j hj
      rw [memcpy, if_pos (by omega)]
    · have hkr : k < (headers run).length := by
        rw [headers, List.length_map]
        omega
      have hold : (headers (run ++ [frame]))[k] = (headers run)[k] := by
        simp only [headers, List.map_append]
        exact List.getElem_append_left _
      rw [hold, Function.update_of_ne hkn]
      exact h.rows k hkr
  have htake : (run ++ [frame]).take (rx.pktNum + 1) = run ++ [frame] := by rw [← hlen', List.take_length]
  have hlast : (headers (run ++ [frame])).getLast? = some (CodingHdr.read frame.bytes) := by simp [headers]
  have hforth (hin : InBatch (run ++ [frame])) (ht : done = true) :
      DecodesAt mt19937 (run ++ [frame]) (rx.pktNum + 1) := by
    obtain ⟨first, hfirst⟩ : ∃ first, first ∈ (headers (run ++ [frame])).head? :=
      Option.ne_none_iff_exists'.mp (by simp [headers])
    have hindexed := hin first hfirst
    rw [List.take_of_length_le (by omega)] at hindexed
    have htry : ((CodingHdr.read frame.bytes).nin : Nat) ≤ rx.pktNum + 1 := by
      by_contra hn
      rw [hs.waits (not_le.mp hn)] at ht
      cases ht
    obtain ⟨out, hout, hok, _⟩ := hs.tries htry
    rw [← hlen] at hout
    rw [DecodesAt, htake]
    exact ⟨hlen'.ge, first, hfirst, _, hlast, htry, (decode_ok_iff hfirst (by omega) hrows hindexed hout).mp (hok ▸ ht)⟩
  have hback (hd : DecodesAt mt19937 (run ++ [frame]) (rx.pktNum + 1)) : done = true := by
    rw [DecodesAt, htake] at hd
    obtain ⟨_, first, hfirst, last, hl, htry, hsolves⟩ := hd
    obtain rfl := Option.some_inj.mp (hlast.symm.trans hl)
    obtain ⟨out, hout, hok, _⟩ := hs.tries htry
    rw [← hlen] at hout
    rw [hok]
    exact (decode_ok_iff hfirst (by omega) hrows hsolves.1 hout).mpr hsolves
  have hdecoded : rx'.decoded = done := by rw [hs.decoded, hdec, Bool.false_or]
  refine ⟨hs.accepts hrx, fun a ha => ?_, by rw [hs.pktNum]; exact hlt, fun hw => ?_, fun ht hin => ?_⟩
  · obtain ⟨hn, hb⟩ := hcur a ha
    exact ⟨hs.curNodeId.trans hn, hs.curBatchId.trans hb⟩
  · refine ⟨by rw [hs.pktNum, hlen'], hrows, fun k hk => ?_⟩
    by_cases hkr : k ≤ run.length
    · exact h.unsolved k ((decodesAt_append [frame] hkr).mp hk)
    · have hke : k = rx.pktNum + 1 := by
        have := hk.1
        omega
      rw [hdecoded, hback (hke ▸ hk)] at hw
      cases hw
  · exact ⟨rx.pktNum + 1, hlt, hforth hin (hdecoded ▸ ht)⟩

private theorem AtRun.same {pktSize : Nat} {run : List Frame} {frame : Frame} {rx rx' : V2xReceiver} {done : Bool}
    (h : AtRun mt19937 pktSize run rx) (hsize : frame.size = pktSize + sizeofCodingHdr)
    (hc : rx.Continues (CodingHdr.read frame.bytes)) (hrun : rx.onFrame mt19937 frame = some (rx', done)) :
    AtRun mt19937 pktSize (run ++ [frame]) rx' := by
  have hc' : ({ rx with seqno := frame.seqno, mcs := frame.mcs } : V2xReceiver).Continues
      (CodingHdr.read frame.bytes) := hc
  have hcur : ∀ a ∈ run ++ [frame], rx.Continues (CodingHdr.read a.bytes) := by
    intro a ha
    rcases List.mem_append.mp ha with ha | ha
    · exact h.current a ha
    · rwa [List.mem_singleton.mp ha]
  rw [V2xReceiver.onFrame_accepted h.accepts hsize, V2xReceiver.enter_continues hc'] at hrun
  dsimp only at hrun
  split_ifs at hrun with hdec
  · -- a decoded batch takes no more packets
    cases hrun
    refine ⟨h.accepts.congr rfl rfl, hcur, h.pktNum_le, fun hw => ?_, fun _ hin => ?_⟩
    · rw [show rx.decoded = false from hw] at hdec
      cases hdec
    · have hin' : InBatch run := by
        intro first hfirst hdr hhdr
        have hne : run ≠ [] := by
          rintro rfl
          cases hfirst
        refine hin first ((head_headers [frame] hne).symm ▸ hfirst) hdr ?_
        obtain ⟨a, ha, rfl⟩ := List.mem_map.mp hhdr
        rw [List.take_append, headers, List.map_append]
        exact List.mem_append_left _ (List.mem_map_of_mem ha)
      obtain ⟨k, hk, hd⟩ := h.decoded hdec hin'
      exact ⟨k, hk, (decodesAt_append [frame] hd.1).mpr hd⟩
  · have hfalse : rx.decoded = false := by simpa using hdec
    obtain ⟨hnum, hrows, hunsolved⟩ := h.waits hfalse
    refine @Waits.collect mt19937 pktSize run frame _ rx' done ?_ ?_ ?_ ?_ hrun
    · exact h.accepts.congr rfl rfl
    · exact hfalse
    · exact ⟨hnum, hrows, hunsolved⟩
    · exact hcur

private theorem atRun_new {pktSize : Nat} {frame : Frame} {rx rx' : V2xReceiver} {done : Bool}
    (hrx : rx.Accepts pktSize)
    (hsize : frame.size = pktSize + sizeofCodingHdr) (hc : ¬ rx.Continues (CodingHdr.read frame.bytes))
    (hrun : rx.onFrame mt19937 frame = some (rx', done)) : AtRun mt19937 pktSize [frame] rx' := by
  let rx₀ : V2xReceiver := { rx with seqno := frame.seqno, mcs := frame.mcs }
  have hrx₀ : rx₀.Accepts pktSize := hrx.congr rfl rfl
  obtain ⟨hnum, hdec⟩ := @V2xReceiver.enter_new rx₀ (CodingHdr.read frame.bytes) hc
  obtain ⟨_, _, _, _, hcn, hcb⟩ := rx₀.enter_keeps (CodingHdr.read frame.bytes)
  rw [V2xReceiver.onFrame_accepted hrx hsize] at hrun
  dsimp only at hrun
  rw [if_neg (by rw [hdec]; exact Bool.false_ne_true)] at hrun
  refine @Waits.collect mt19937 pktSize [] frame _ rx' done (hrx₀.enter _) hdec
    ⟨hnum, fun k hk => absurd hk (Nat.not_lt_zero k), ?_⟩ ?_ hrun
  · rintro k ⟨_, first, hfirst, _⟩
    cases hfirst
  · intro a ha
    rw [List.mem_singleton.mp ha]
    exact ⟨hcn, hcb⟩

/-- The receiver is at the last stretch of frames, or has heard of no node. -/
private def AtLast (mt19937 : Nat → Nat → UInt32) (pktSize : Nat) (frames : List Frame) (rx : V2xReceiver) : Prop :=
  (frames = [] ∧ rx.Accepts pktSize ∧ rx.pktNum = 0 ∧ rx.curNodeId = -1) ∨
    ∃ left run, stretches airBatch frames = left ++ [run] ∧ AtRun mt19937 pktSize run rx

private theorem AtLast.accepts {pktSize : Nat} {frames : List Frame} {rx : V2xReceiver}
    (h : AtLast mt19937 pktSize frames rx) : rx.Accepts pktSize ∧ rx.pktNum ≤ kMaxCodingSize := by
  rcases h with ⟨_, hrx, hnum, _⟩ | ⟨_, _, _, hat⟩
  · exact ⟨hrx, by rw [hnum]; exact Nat.zero_le _⟩
  · exact ⟨hat.accepts, hat.pktNum_le⟩

private theorem AtLast.step {pktSize : Nat} {frames : List Frame} {frame : Frame} {rx rx' : V2xReceiver} {done : Bool}
    (h : AtLast mt19937 pktSize frames rx) (hsize : frame.size = pktSize + sizeofCodingHdr)
    (hrun : rx.onFrame mt19937 frame = some (rx', done)) : AtLast mt19937 pktSize (frames ++ [frame]) rx' := by
  rcases h with ⟨rfl, hrx, _, hnode⟩ | ⟨left, run, hs, hat⟩
  · right
    have hc : ¬ rx.Continues (CodingHdr.read frame.bytes) := fun hc => by
      have := hc.1
      omega
    exact ⟨[], [frame], rfl, atRun_new hrx hsize hc hrun⟩
  · right
    by_cases hc : rx.Continues (CodingHdr.read frame.bytes)
    · have hkey : ∀ c ∈ run, airBatch c = airBatch frame := fun c hc' => (continues_iff (hat.current c hc')).mp hc
      exact ⟨left, run ++ [frame], stretches_concat_same hs hkey, hat.same hsize hc hrun⟩
    · have hkey : ∀ c ∈ frames.getLast?, airBatch c ≠ airBatch frame := by
        intro c hlast he
        exact hc ((continues_iff (hat.current c (mem_last_stretch hs hlast))).mpr he)
      exact ⟨left ++ [run], [frame], by rw [stretches_concat_new hkey, hs], atRun_new hat.accepts hsize hc hrun⟩

private theorem AtLast.overfills {pktSize : Nat} {frames : List Frame} {frame : Frame} {rx : V2xReceiver}
    (h : AtLast mt19937 pktSize frames rx) (ho : rx.Overfills frame) :
    ∃ left run, stretches airBatch (frames ++ [frame]) = left ++ [run ++ [frame]] ∧ kMaxCodingSize ≤ run.length ∧
      ∀ k, ¬ DecodesAt mt19937 run k := by
  obtain ⟨hc, hdec, hfull⟩ := ho
  rcases h with ⟨rfl, _, hnum, _⟩ | ⟨left, run, hs, hat⟩
  · rw [hnum] at hfull
    exact absurd hfull (by decide)
  · obtain ⟨hnum, _, hunsolved⟩ := hat.waits hdec
    have hkey : ∀ c ∈ run, airBatch c = airBatch frame := fun c hc' => (continues_iff (hat.current c hc')).mp hc
    exact ⟨left, run, stretches_concat_same hs hkey, by omega, hunsolved⟩

private theorem atLast_run {pktSize slack : Nat} (hslack : sizeofCodingHdr ≤ slack) (frames : List Frame)
    (hsize : ∀ f ∈ frames, f.size = pktSize + sizeofCodingHdr) {rx : V2xReceiver}
    {outs : List (RowTable kMaxCodingSize Buffer)}
    (hserve : (V2xReceiver.new pktSize slack).serve mt19937 frames = some (rx, outs)) :
    AtLast mt19937 pktSize frames rx := by
  induction frames using List.reverseRecOn generalizing rx outs with
  | nil =>
    cases hserve
    exact Or.inl ⟨rfl, V2xReceiver.accepts_new hslack, rfl, rfl⟩
  | append_singleton frames frame ih =>
    obtain ⟨rx₁, outs₁, done, h₁, hrun⟩ := V2xReceiver.serve_concat hserve
    exact (ih (fun f hf => hsize f (List.mem_append_left _ hf)) h₁).step (hsize frame (by simp)) hrun

private theorem rowsInRange_of {pktSize slack : Nat} (hslack : sizeofCodingHdr ≤ slack) {frames : List Frame}
    (hsize : ∀ f ∈ frames, f.size = pktSize + sizeofCodingHdr)
    (h : ∀ run ∈ stretches airBatch frames, DecodesInTime mt19937 run) :
    RowsInRange mt19937 (V2xReceiver.new pktSize slack) frames := by
  intro pre
  induction pre using List.reverseRecOn with
  | nil => exact fun _ _ => ⟨_, _, rfl, Nat.zero_le _⟩
  | append_singleton pre frame ih =>
    rintro suf rfl
    obtain ⟨rx, outs, hserve, _⟩ := ih ([frame] ++ suf) (List.append_assoc pre [frame] suf)
    have hat := atLast_run hslack pre (fun f hf => hsize f (by simp [hf])) hserve
    have hframe : frame.size = pktSize + sizeofCodingHdr := hsize frame (by simp)
    have hinside : ¬ rx.Overfills frame := by
      intro ho
      obtain ⟨left, run, hs, hlen, hunsolved⟩ := hat.overfills ho
      have hmem : run ++ [frame] ∈ stretches airBatch (pre ++ [frame]) := by simp [hs]
      obtain ⟨run', hrun', more, rfl⟩ := exists_stretch_extends hmem suf
      obtain ⟨k, hk, hd⟩ := h _ hrun' (by simp only [List.length_append, List.length_singleton]; omega)
      rw [List.append_assoc] at hd
      exact hunsolved k ((decodesAt_append _ (by omega)).mp hd)
    obtain ⟨rx', done, hrun⟩ := V2xReceiver.onFrame_inside mt19937 hat.accepts.1 hframe hinside
    exact ⟨rx', _, V2xReceiver.serve_snoc hserve hrun, (hat.step hframe hrun).accepts.2⟩

private theorem decodesInTime_of {pktSize slack : Nat} (hslack : sizeofCodingHdr ≤ slack) (frames : List Frame)
    (hsize : ∀ f ∈ frames, f.size = pktSize + sizeofCodingHdr) {rx : V2xReceiver}
    {outs : List (RowTable kMaxCodingSize Buffer)}
    (hserve : (V2xReceiver.new pktSize slack).serve mt19937 frames = some (rx, outs)) :
    ∀ run ∈ stretches airBatch frames, InBatch run → DecodesInTime mt19937 run := by
  induction frames using List.reverseRecOn generalizing rx outs with
  | nil => exact fun run hrun => absurd hrun List.not_mem_nil
  | append_singleton frames frame ih =>
    have hold : ∀ f ∈ frames, f.size = pktSize + sizeofCodingHdr := fun f hf => hsize f (List.mem_append_left _ hf)
    have hframe : frame.size = pktSize + sizeofCodingHdr := hsize frame (by simp)
    obtain ⟨rx₁, outs₁, done, h₁, hrun⟩ := V2xReceiver.serve_concat hserve
    have hat := atLast_run hslack frames hold h₁
    rcases stretches_concat airBatch frames frame with ⟨left, run, hs, hkey, hs'⟩ | ⟨_, hs'⟩
    · intro run' hmem hin hlong
      rw [hs'] at hmem
      rcases List.mem_append.mp hmem with hmem | hmem
      · exact ih hold h₁ run' (by rw [hs]; exact List.mem_append_left _ hmem) hin hlong
      · obtain rfl := List.mem_singleton.mp hmem
        rw [List.length_append, List.length_singleton] at hlong
        have hfull : kMaxCodingSize ≤ run.length := by omega
        have hne : run ≠ [] := ne_nil_of_mem_stretches (by rw [hs]; simp : run ∈ stretches airBatch frames)
        rcases hat with ⟨rfl, _⟩ | ⟨left', run', hs₁, hat⟩
        · exact absurd hs (by simp [stretches])
        · obtain rfl : run = run' := by simpa using congrArg List.getLast? (hs.symm.trans hs₁)
          obtain ⟨a, ha⟩ := List.exists_mem_of_ne_nil run hne
          have hdec : rx₁.decoded = true := by
            by_contra hfalse
            have hfalse' : rx₁.decoded = false := by simpa using hfalse
            have hover : rx₁.Overfills frame :=
              ⟨(continues_iff (hat.current a ha)).mpr (hkey a ha), hfalse',
                by rw [(hat.waits hfalse').pktNum_eq]; exact hfull⟩
            rw [V2xReceiver.onFrame_overfilled hat.accepts hframe hover] at hrun
            cases hrun
          have hin' : InBatch run := by
            intro first hfirst
            have := hin first (by rwa [head_headers [frame] hne])
            rwa [List.take_append_of_le_length hfull] at this
          obtain ⟨k, hk, hd⟩ := hat.decoded hdec hin'
          exact ⟨k, hk, (decodesAt_append [frame] hd.1).mpr hd⟩
    · intro run' hmem hin hlong
      rw [hs'] at hmem
      rcases List.mem_append.mp hmem with hmem | hmem
      · exact ih hold h₁ run' hmem hin hlong
      · obtain rfl := List.mem_singleton.mp hmem
        rw [List.length_singleton, kMaxCodingSize] at hlong
        omega

/-- Index safety, for frames with arbitrary headers. The run stays inside the tables if `recv_buf` has room and every
stretch of more than `kMaxCodingSize` frames of one node and batch number decodes within the first `kMaxCodingSize`.
It leaves them otherwise, as far as the headers tell: where one of these frames names no packet of its batch, an
earlier batch has left the coefficients that it selects. -/
theorem serve_rows_in_range (pktSize slack : Nat) (frames : List Frame)
    (hsize : ∀ f ∈ frames, f.size = pktSize + sizeofCodingHdr) :
    ((frames = [] ∨ sizeofCodingHdr ≤ slack) ∧ (∀ run ∈ stretches airBatch frames, DecodesInTime mt19937 run) →
      RowsInRange mt19937 (V2xReceiver.new pktSize slack) frames) ∧
    (RowsInRange mt19937 (V2xReceiver.new pktSize slack) frames →
      (frames = [] ∨ sizeofCodingHdr ≤ slack) ∧
        ∀ run ∈ stretches airBatch frames, InBatch run → DecodesInTime mt19937 run) := by
  constructor
  · rintro ⟨rfl | hslack, h⟩
    · intro pre suf he
      obtain ⟨rfl, _⟩ := List.append_eq_nil_iff.mp he.symm
      exact ⟨_, _, rfl, Nat.zero_le _⟩
    · exact rowsInRange_of hslack hsize h
  · intro h
    obtain ⟨rx, outs, hserve, _⟩ := h frames [] (List.append_nil _).symm
    rcases frames with _ | ⟨frame, frames⟩
    · exact ⟨Or.inl rfl, fun run hrun => absurd hrun List.not_mem_nil⟩
    · have hslack : sizeofCodingHdr ≤ slack := by
        by_contra hn
        rw [V2xReceiver.serve_noRoom frames (not_le.mp hn) (hsize frame List.mem_cons_self)] at hserve
        cases hserve
      exact ⟨Or.inr hslack, decodesInTime_of hslack _ hsize hserve⟩

private theorem stretches_repeats (frame : Frame) (n : Nat) :
    stretches airBatch (List.replicate (n + 1) frame) = [List.replicate (n + 1) frame] := by
  apply stretches_eq_singleton (by simp)
  intro a ha b hb
  rw [List.eq_of_mem_replicate ha, List.eq_of_mem_replicate hb]

private theorem head_repeats (frame : Frame) (n : Nat) :
    (headers (List.replicate (n + 1) frame)).head? = some (CodingHdr.read frame.bytes) := rfl

/-- Repeats of one source packet never suffice for a batch of two or more. -/
theorem not_solves_repeats (first : CodingHdr) (hnin : 2 ≤ (first.nin : Nat)) (hcoef : (first.coefId : Nat) = 0)
    (k : Nat) :
    ¬ Solves mt19937 first (List.replicate k first) := by
  rintro ⟨_, hle⟩
  rw [List.length_replicate] at hle
  have hA : ∀ l < k, ∀ i < (first.nin : Nat),
      (headerColumns mt19937 first (List.replicate k first)).get l i = if i = 0 then 1 else 0 := by
    intro l hl i hi
    have hptr : (headerColumns mt19937 first (List.replicate k first)).ptr l = 0 := by
      change ((List.replicate k first).map fun hdr => (hdr.coefId : Nat)).getD l 0 = 0
      rw [List.map_replicate, hcoef]
      simp [hl]
    rw [Mat.get, hptr]
    exact if_pos (by omega)
  have hr := le_antisymm (gaussianElimination_le _ (newIdentityMat k) k first.nin) hle
  have hunit := gaussianElimination_unit _ k first.nin (fun l hl r hr r' hr' => by
    rw [hA l hl r hr, hA l hl r' hr']
    split_ifs with h0 h0' <;> intro hne hne'
    · rw [h0, h0']
    · exact absurd rfl hne'
    · exact absurd rfl hne
    · exact absurd rfl hne) hr 1 (by omega) 1 (by omega)
  rw [Finset.sum_eq_zero] at hunit
  · exact absurd hunit (by decide)
  · intro l hl
    rw [hA l (mem_range.mp hl) 1 (by omega), if_neg one_ne_zero, zero_mul]

/-- A packet of a batch of one, again and again: the first one decodes. -/
theorem serve_rows_in_range_repeats :
    RowsInRange countingStream (V2xReceiver.new 1 5)
      (List.replicate (kMaxCodingSize + 1) (frameOf countingStream 1 0 1 9 markedBatches (0, 0))) := by
  refine (serve_rows_in_range 1 5 _ fun f hf => by rw [List.eq_of_mem_replicate hf]; rfl).1
    ⟨Or.inr (by decide), fun run hrun _ => ?_⟩
  rw [stretches_repeats, List.mem_singleton] at hrun
  subst hrun
  refine ⟨1, by decide, by rw [List.length_replicate]; omega, _, head_repeats _ _, _, rfl, ?_, ?_, ?_⟩
  · decide
  · decide
  · decide

/-- One packet of a batch of two, received `kMaxCodingSize + 1` times, is stored behind the end of `inputPkts`. -/
theorem not_rowsInRange_repeats :
    ¬ RowsInRange countingStream (V2xReceiver.new 1 5)
      (List.replicate (kMaxCodingSize + 1) (frameOf countingStream 2 0 1 9 markedBatches (0, 0))) := by
  intro h
  have hf : IsFrame countingStream 2 0 1 9 markedBatches (0, 0) (frameOf countingStream 2 0 1 9 markedBatches (0, 0)) :=
    isFrame_frameOf (by decide) (by decide) (by decide) (by decide)
  generalize frameOf countingStream 2 0 1 9 markedBatches (0, 0) = frame at h hf
  obtain ⟨rx, outs, hserve, _⟩ := h _ [] (List.append_nil _).symm
  have hin : InBatch (List.replicate (kMaxCodingSize + 1) frame) := by
    intro first hfirst hdr hhdr
    rw [head_repeats, Option.mem_some] at hfirst
    subst hfirst
    rw [List.take_replicate, headers, List.map_replicate] at hhdr
    rw [List.eq_of_mem_replicate hhdr, hf.isPacket.coefId_eq, hf.isPacket.nin_eq]
    omega
  obtain ⟨k, hk, _, first, hfirst, _, _, _, hsolves⟩ :=
    decodesInTime_of (by decide) _ (fun f hmem => by rw [List.eq_of_mem_replicate hmem]; exact hf.size_eq) hserve _
      (by rw [stretches_repeats]; exact List.mem_singleton_self _) hin (by rw [List.length_replicate]; omega)
  rw [head_repeats, Option.mem_some] at hfirst
  subst hfirst
  rw [List.take_replicate, headers, List.map_replicate] at hsolves
  exact not_solves_repeats _ (by rw [hf.isPacket.nin_eq]) hf.isPacket.coefId_eq _ hsolves

end Soar.Communication
