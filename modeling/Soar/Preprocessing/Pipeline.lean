import Soar.Library.BoundedFifo
import Soar.Computing.CompletedCalls
import Soar.Preprocessing.DataProcesser

/-! `pre_processing.py` between the queue of a sensor and the queue of an application. -/
namespace Soar.Preprocessing
open Soar.Library Soar.Computing

variable {τ : Type}

/-- What a process is started with, and the library functions that it calls; `key` is the place of its key among those of
the sensor's queue, `preItemsize` the size of `pre_data_type`, and `value` the number that a timestamp is. -/
structure PreProcessing (τ : Type) where
  sensorQueue : CrossQueue τ
  key : Fin sensorQueue.frontKeys
  dataShape : Nat × Nat × Nat
  processer : DataProcesser
  library : ImageLibrary
  /-- `sys.getsizeof`. -/
  getsizeof : NDArray ℚ → Nat
  appKeys : Nat
  appKey : Fin appKeys
  preItemsize : Nat
  deadlineMs : Int
  value : τ → ℚ

/-- Start time, receive time and end time of the frames that were forwarded, in the order of the dictionary. -/
abbrev Results := List (ℚ × ℚ × ℚ)

/-- The two queues, the variables of the loop between them, and what the application has got. Between `get` and `put`
the processed data, their timestamp and the start of the processing are `pending`. The queue of the application is there
from the first processed data on. -/
structure Pipeline (τ : Type) where
  sensor : Callers
  pending : Option (NDArray ℚ × τ × ℚ) := none
  lastStamp : ℚ := 99999
  app : Option (CrossQueue τ × Callers) := none
  results : Results := []
  count : Nat := 0
  dumps : List (Nat × Results) := []
  received : List (Bytes × τ) := []

/-- The steps of the processes: the sensor's, the one of `pre_processing.py` up to its `put` and from there on, those
of the application, and the gets of other applications from the queue of the sensor. -/
inductive Event (τ : Type)
  | publish (data : Bytes) (timestamp : τ)
  | take (s1 : ℚ)
  | forward (e1 : ℚ)
  | receive (object : Nat)
  | gettime (object top : Nat)
  | isEmpty (object : Nat)
  | other (object k : Nat)

/-- The frames that the sensor puts. -/
def published (events : List (Event τ)) : List (Bytes × τ) :=
  events.filterMap fun
    | .publish data timestamp => some (data, timestamp)
    | _ => none

/-- `write_to_results`. -/
def Pipeline.writeToResults (w : Pipeline τ) (startTime recvTime endTime : ℚ) : Pipeline τ :=
  let results :=
    if startTime ∈ w.results.map Prod.fst then w.results else w.results ++ [(startTime, recvTime, endTime)]
  let count := w.count + 1
  { w with
    results := results
    count := count
    dumps := if count % 100 = 0 then w.dumps ++ [(count, results)] else w.dumps }

theorem two_le_maxLength_appQueue : 2 ≤ 5 := by decide

namespace PreProcessing

variable (P : PreProcessing τ) (v : Version) (rounds : Nat)

/-- In seconds. -/
def deadline : ℚ := double (P.deadlineMs / 1000)

def process (data : Bytes) : Option (NDArray ℚ) := P.processer.imageResize P.library (decode P.dataShape data)

/-- The queue that is created for the processed data of the first frame. -/
def appQueue (preData : NDArray ℚ) : CrossQueue τ where
  maxLength := 5
  frontKeys := P.appKeys
  shape := [preData.shape.1, preData.shape.2.1, preData.shape.2.2]
  itemsize := P.preItemsize
  maxDataSize := P.getsizeof preData
  blank := P.sensorQueue.blank
  timestamp := P.sensorQueue.timestamp
  rereadsRear := false
  two_le_maxLength := two_le_maxLength_appQueue
  isDigit_blank := P.sensorQueue.isDigit_blank

/-- A call of `queue.get()` and what follows it in the loop, up to the `put`. -/
def take (w : Pipeline τ) (s1 : ℚ) : Option (Pipeline τ) :=
  if w.pending.isSome then none
  else
    match w.sensor.step P.sensorQueue v rounds ⟨1, .get P.key⟩ with
    | some (.item data timestamp, sensor) =>
      if P.deadline ≤ double (P.value timestamp - w.lastStamp) ∨ w.lastStamp = 99999 then
        (P.process data).map fun preData =>
          { w with
            sensor := sensor
            pending := some (preData, timestamp, s1)
            lastStamp := P.value timestamp
            app := some (w.app.getD (P.appQueue preData, (P.appQueue preData).callers)) }
      else some { w with sensor := sensor }
    | _ => none

def forward (w : Pipeline τ) (e1 : ℚ) : Option (Pipeline τ) :=
  match w.pending, w.app with
  | some (preData, timestamp, s1), some (queue, app) =>
    (app.step queue v rounds ⟨0, .put preData.tobytes timestamp⟩).map fun (_, app) =>
      { w with pending := none, app := some (queue, app) }.writeToResults (P.value timestamp) s1 e1
  | _, _ => none

def receive (w : Pipeline τ) (object : Nat) : Option (Pipeline τ) :=
  match w.app with
  | none => none
  | some (queue, app) =>
    match app.step queue v rounds ⟨object, .get P.appKey⟩ with
    | some (.item data timestamp, app) =>
      some { w with app := some (queue, app), received := w.received ++ [(data, timestamp)] }
    | _ => none

def look (w : Pipeline τ) (object : Nat) (operation : Operation τ) : Option (Pipeline τ) :=
  w.app.bind fun (queue, app) =>
    (app.step queue v rounds ⟨object, operation⟩).map fun (_, app) => { w with app := some (queue, app) }

/-- A step that completes; a `get` at an empty queue does not. -/
def step (w : Pipeline τ) : Event τ → Option (Pipeline τ)
  | .publish data timestamp =>
    (w.sensor.step P.sensorQueue v rounds ⟨0, .put data timestamp⟩).map fun (_, sensor) => { w with sensor := sensor }
  | .take s1 => P.take v rounds w s1
  | .forward e1 => P.forward v rounds w e1
  | .receive object => P.receive v rounds w object
  | .gettime object top => look v rounds w object (.gettime P.appKey top)
  | .isEmpty object => look v rounds w object (.isEmpty P.appKey)
  | .other object k =>
    if k ≠ P.key ∧ k < P.sensorQueue.frontKeys then
      (w.sensor.step P.sensorQueue v rounds ⟨object, .get k⟩).map fun (_, sensor) => { w with sensor := sensor }
    else none

def start : Pipeline τ := { sensor := P.sensorQueue.callers }

def run (events : List (Event τ)) : Option (Pipeline τ) := events.foldlM (P.step v rounds) P.start

/-- A frame with its data processed. -/
def image (x : Bytes × τ) : Option Bytes × τ := ((P.process x.1).map NDArray.tobytes, x.2)

/-- A frame that passes the test of the deadline after another one. -/
def Spaced (x y : Bytes × τ) : Prop := P.deadline ≤ double (P.value y.2 - P.value x.2)

/-- Up to the rounding of the difference, the deadline lies between two frames. -/
def Gap (x y : Bytes × τ) : Prop := P.deadline ≤ (1 + 1 / 2 ^ 53) * (P.value y.2 - P.value x.2)

variable {P}

theorem deadline_pos (h : 0 < P.deadlineMs) : 0 < P.deadline :=
  double_pos (div_pos (Int.cast_pos.mpr h) (by norm_num))

/-- Frames that the filter lets through are a deadline apart, up to one rounding. -/
theorem Spaced.gap (hdeadline : 0 < P.deadlineMs) {x y : Bytes × τ} (h : P.Spaced x y) : P.Gap x y := by
  have hpos := deadline_pos hdeadline
  unfold Spaced at h
  have hlater : 0 < P.value y.2 - P.value x.2 := by
    by_contra hnot
    exact absurd (double_nonpos (not_lt.mp hnot)) (hpos.trans_le h).not_ge
  have herror := abs_le.mp (abs_double_sub_le (P.value y.2 - P.value x.2))
  rw [abs_of_pos hlater] at herror
  unfold Gap
  linarith

/-- Gaps add up. -/
theorem isTrans_gap (hdeadline : 0 < P.deadlineMs) : IsTrans (Bytes × τ) P.Gap where
  trans x y z hxy hyz := by
    have hpos := deadline_pos hdeadline
    unfold Gap at *
    linarith

theorem Gap.lt (hdeadline : 0 < P.deadlineMs) {x y : Bytes × τ} (h : P.Gap x y) : P.value x.2 < P.value y.2 := by
  have hpos := deadline_pos hdeadline
  unfold Gap at h
  linarith

/-- Processed data have no sentinel. -/
theorem process_sentinelFree (hlib : P.library.Documented) {data : Bytes} {preData : NDArray ℚ}
    (h : P.process data = some preData) : SentinelFree preData.tobytes := by
  obtain ⟨box, -, rfl⟩ := Option.map_eq_some_iff.mp h
  exact hlib.sentinelFree_tobytes _

end PreProcessing

namespace Pipeline

variable {P : PreProcessing τ} {v : Version} {rounds : Nat} {frames taken chosen put : List (Bytes × τ)}
  {w w' : Pipeline τ}

/-- The frame between `get` and `put`. -/
def waiting (w : Pipeline τ) : List (Bytes × τ) := w.pending.toList.map fun x => (x.1.tobytes, x.2.1)

/-- The queue was created for processed data. -/
def Created (P : PreProcessing τ) (queue : CrossQueue τ) : Prop :=
  ∃ data first, P.process data = some first ∧ queue = P.appQueue first

/-- Of the frames that the sensor has put, `taken` are those taken from its queue, `chosen` those of them that passed
the test of the deadline, and `put` what was put of those into the queue of the application. -/
structure Delivering (P : PreProcessing τ) (frames taken chosen put : List (Bytes × τ)) (w : Pipeline τ) : Prop where
  sensor : ∃ l, Recorded P.sensorQueue w.sensor l ∧ Fed (frames.map asRead) taken (l.left P.key)
  shaped : ∀ x ∈ taken, P.sensorQueue.Shaped x.1
  passed : chosen.Sublist taken
  images : chosen.map P.image = (put ++ w.waiting).map fun y => (some y.1, y.2)
  last : w.lastStamp = (chosen.getLast?.map fun x => P.value x.2).getD 99999
  spaced : chosen.IsChain P.Spaced
  app : ∀ queue app, w.app = some (queue, app) →
    Created P queue ∧ ∃ l, Recorded queue app l ∧ Fed put w.received (l.left P.appKey)
  unused : w.app = none → w.pending = none ∧ put = [] ∧ w.received = []
  processed : ∀ waits, w.pending = some waits → ∃ data, P.process data = some waits.1
  starts : w.results.map Prod.fst = put.map fun x => P.value x.2
  counted : w.count = put.length
  dumped : w.dumps.map Prod.fst = (List.range (w.count / 100)).map fun n => 100 * (n + 1)
  dumps : ∀ d ∈ w.dumps, d.2.length = d.1 ∧ d.2 <+: w.results

/-- Before the first step nothing has been published. -/
theorem delivering_start (P : PreProcessing τ) : Delivering P [] [] [] [] P.start where
  sensor := ⟨{}, P.sensorQueue.callers_recorded, fed_start⟩
  shaped := by
    intro x hx
    cases hx
  passed := List.Sublist.refl []
  images := rfl
  last := rfl
  spaced := List.IsChain.nil
  app := nofun
  unused _ := ⟨rfl, rfl, rfl⟩
  processed := nofun
  starts := rfl
  counted := rfl
  dumped := by
    rw [show P.start.count / 100 = 0 from Nat.zero_div 100]
    rfl
  dumps := by
    intro d hd
    cases hd

theorem Delivering.publish (h : Delivering P frames taken chosen put w) {data : Bytes} {timestamp : τ}
    (hstep : P.step v rounds w (.publish data timestamp) = some w') :
    Delivering P (frames ++ [(data, timestamp)]) taken chosen put w' := by
  obtain ⟨⟨a, sensor⟩, hput, rfl⟩ := Option.map_eq_some_iff.mp hstep
  obtain ⟨l, hrecorded, hfed⟩ := h.sensor
  refine { h with sensor := ⟨_, hrecorded.put hput, ?_⟩ }
  rw [List.map_append]
  exact hfed.put (push_suffix _ _ _)

theorem Delivering.other (h : Delivering P frames taken chosen put w) {object k : Nat}
    (hstep : P.step v rounds w (.other object k) = some w') : Delivering P frames taken chosen put w' := by
  obtain ⟨⟨hne, hk⟩, hmap⟩ := Option.ite_none_right_eq_some.mp hstep
  obtain ⟨⟨a, sensor⟩, hget, rfl⟩ := Option.map_eq_some_iff.mp hmap
  obtain ⟨l, hrecorded, hfed⟩ := h.sensor
  obtain ⟨x, rest, -, -, -, hrecorded'⟩ := hrecorded.get_item hk hget
  refine { h with sensor := ⟨_, hrecorded', ?_⟩ }
  dsimp only
  rw [Function.update_of_ne hne.symm]
  exact hfed

theorem Delivering.receive (h : Delivering P frames taken chosen put w) {object : Nat}
    (hstep : P.step v rounds w (.receive object) = some w') : Delivering P frames taken chosen put w' := by
  rw [PreProcessing.step, PreProcessing.receive] at hstep
  split at hstep
  · cases hstep
  · rename_i queue app happ
    obtain ⟨⟨data, first, hprocess, rfl⟩, l, hrecorded, hfed⟩ := h.app queue app happ
    split at hstep
    · rename_i data' timestamp app' hget
      obtain rfl := Option.some.inj hstep
      obtain ⟨x, rest, hitem, -, hsuffix, hrecorded'⟩ := hrecorded.get_item P.appKey.isLt hget
      cases hitem
      refine { h with app := ?_, unused := nofun }
      rintro queue app ⟨⟩
      refine ⟨⟨data, first, hprocess, rfl⟩, _, hrecorded', ?_⟩
      dsimp only
      rw [Function.update_self]
      exact hfed.take hsuffix
    · cases hstep

theorem Delivering.look (h : Delivering P frames taken chosen put w) {object : Nat} {operation : Operation τ}
    (hlook : (∃ top, operation = .gettime P.appKey top) ∨ operation = .isEmpty P.appKey)
    (hstep : PreProcessing.look v rounds w object operation = some w') : Delivering P frames taken chosen put w' := by
  obtain ⟨⟨queue, app⟩, happ, hmap⟩ := Option.bind_eq_some_iff.mp hstep
  obtain ⟨⟨a, app'⟩, hcall, rfl⟩ := Option.map_eq_some_iff.mp hmap
  obtain ⟨⟨data, first, hprocess, rfl⟩, l, hrecorded, hfed⟩ := h.app queue app happ
  refine { h with app := ?_, unused := nofun }
  rintro queue app ⟨⟩
  exact ⟨⟨data, first, hprocess, rfl⟩, l, hrecorded.look P.appKey.isLt hlook hcall, hfed⟩

theorem Delivering.stamps (h : Delivering P frames taken chosen put w) (hstamp : ∀ x ∈ frames, P.value x.2 ≠ 99999) :
    ∀ x ∈ taken, P.value x.2 ≠ 99999 := by
  intro x hx
  obtain ⟨l, -, hfed⟩ := h.sensor
  obtain ⟨y, hy, rfl⟩ := List.mem_map.mp (hfed.sublist.subset hx)
  exact hstamp y hy

/-- The times of the frames that are chosen are those that are put, and last the one that waits. -/
theorem Delivering.times (h : Delivering P frames taken chosen put w) :
    chosen.map (fun x => P.value x.2) = (put ++ w.waiting).map fun x => P.value x.2 := by
  have himages := congrArg (List.map fun y : Option Bytes × τ => P.value y.2) h.images
  rwa [List.map_map, List.map_map] at himages

/-- The loop takes a frame, and passes it on or drops it. -/
theorem Delivering.take (h : Delivering P frames taken chosen put w) (hstamp : ∀ x ∈ frames, P.value x.2 ≠ 99999)
    {s1 : ℚ} (hstep : P.take v rounds w s1 = some w') :
    ∃ taken' chosen', Delivering P frames taken' chosen' put w' := by
  obtain ⟨hidle, hget⟩ := Option.ite_none_left_eq_some.mp hstep
  have hidle : w.pending = none := by simpa using hidle
  obtain ⟨l, hrecorded, hfed⟩ := h.sensor
  split at hget
  · rename_i data timestamp sensor hcall
    obtain ⟨x, rest, hitem, hshaped, hsuffix, hrecorded'⟩ := hrecorded.get_item P.key.isLt hcall
    cases hitem
    have hsensor : ∃ l, Recorded P.sensorQueue sensor l ∧ Fed (frames.map asRead) (taken ++ [x]) (l.left P.key) := by
      refine ⟨_, hrecorded', ?_⟩
      dsimp only
      rw [Function.update_self]
      exact hfed.take hsuffix
    have hshaped' : ∀ y ∈ taken ++ [x], P.sensorQueue.Shaped y.1 := by
      intro y hy
      rcases List.mem_append.mp hy with hy | hy
      · exact h.shaped y hy
      · rw [List.mem_singleton.mp hy]
        exact hshaped
    split_ifs at hget with htest
    · obtain ⟨preData, hprocess, rfl⟩ := Option.map_eq_some_iff.mp hget
      refine ⟨taken ++ [x], chosen ++ [x],
        { h with
          sensor := hsensor
          shaped := hshaped'
          passed := h.passed.append_right [x]
          images := ?_
          last := ?_
          spaced := ?_
          app := ?_
          unused := nofun
          processed := ?_ }⟩
      · have himages := h.images
        rw [waiting, hidle] at himages
        rw [List.map_append, himages, waiting]
        simp [PreProcessing.image, hprocess]
      · rw [List.getLast?_concat, Option.map_some, Option.getD_some]
      · refine List.isChain_append.mpr ⟨h.spaced, List.isChain_singleton x, ?_⟩
        intro y hy z hz
        obtain rfl : x = z := by simpa using hz
        have hlast := h.last
        rw [Option.mem_def.mp hy, Option.map_some, Option.getD_some] at hlast
        rw [hlast] at htest
        have hy' := h.stamps hstamp y (h.passed.subset (List.mem_of_getLast? hy))
        exact htest.resolve_right hy'
      · intro queue app hsome
        have hsome := Option.some.inj hsome
        cases happ : w.app with
        | none =>
          -- the first frame, for which the queue is created
          obtain ⟨-, hput, hreceived⟩ := h.unused happ
          rw [happ] at hsome
          cases hsome
          refine ⟨⟨x.1, preData, hprocess, rfl⟩, {}, (P.appQueue preData).callers_recorded, ?_⟩
          dsimp only
          rw [hput, hreceived]
          exact fed_start
        | some created =>
          rw [happ] at hsome
          cases hsome
          exact h.app queue app happ
      · rintro waits ⟨⟩
        exact ⟨x.1, hprocess⟩
    · obtain rfl := Option.some.inj hget
      exact ⟨taken ++ [x], chosen,
        { h with
          sensor := hsensor
          shaped := hshaped'
          passed := h.passed.trans (List.sublist_append_left taken [x]) }⟩
  · cases hget

theorem Delivering.gaps (h : Delivering P frames taken chosen put w) (hdeadline : 0 < P.deadlineMs) :
    chosen.Pairwise P.Gap := by
  have := PreProcessing.isTrans_gap hdeadline
  exact List.isChain_iff_pairwise.mp (h.spaced.imp fun _ _ hspaced => hspaced.gap hdeadline)

theorem Delivering.times_lt (h : Delivering P frames taken chosen put w) (hdeadline : 0 < P.deadlineMs) :
    ((put ++ w.waiting).map fun x => P.value x.2).Pairwise (· < ·) := by
  rw [← h.times, List.pairwise_map]
  exact (h.gaps hdeadline).imp fun hgap => hgap.lt hdeadline

theorem Delivering.count_eq (h : Delivering P frames taken chosen put w) : w.count = w.results.length := by
  have hlength := congrArg List.length h.starts
  rw [List.length_map, List.length_map] at hlength
  exact h.counted.trans hlength.symm

/-- The loop puts the processed frame and enters it into the results. -/
theorem Delivering.forward (h : Delivering P frames taken chosen put w) (hlib : P.library.Documented)
    (hdeadline : 0 < P.deadlineMs) {e1 : ℚ} (hstep : P.forward v rounds w e1 = some w') :
    ∃ put', Delivering P frames taken chosen put' w' := by
  unfold PreProcessing.forward at hstep
  split at hstep
  · rename_i preData timestamp s1 queue app hpending happ
    obtain ⟨⟨a, app'⟩, hcall, rfl⟩ := Option.map_eq_some_iff.mp hstep
    have hwaiting : w.waiting = [(preData.tobytes, timestamp)] := by
      rw [waiting, hpending]
      rfl
    have himages := h.images
    rw [hwaiting] at himages
    obtain ⟨data, hprocess⟩ := h.processed _ hpending
    have hclean : SentinelFree preData.tobytes := PreProcessing.process_sentinelFree hlib hprocess
    obtain ⟨hcreated, l, hrecorded, hfed⟩ := h.app queue app happ
    have hread : asRead (preData.tobytes, timestamp) = (preData.tobytes, timestamp) := asRead_eq hclean
    -- the times grow, so the dictionary has no entry for this one
    have hnew : P.value timestamp ∉ w.results.map Prod.fst := by
      have htimes := h.times_lt hdeadline
      rw [hwaiting, List.map_append, List.pairwise_append] at htimes
      rw [h.starts]
      intro hmem
      exact lt_irrefl _ (htimes.2.2 _ hmem _ (List.mem_singleton_self _))
    refine ⟨put ++ [(preData.tobytes, timestamp)], ?_⟩
    unfold writeToResults
    dsimp only
    rw [if_neg hnew]
    refine { h with
      images := ?_
      app := ?_
      unused := nofun
      processed := nofun
      starts := ?_
      counted := ?_
      dumped := ?_
      dumps := ?_ }
    · rw [himages]
      simp [waiting]
    · rintro queue app ⟨⟩
      refine ⟨hcreated, _, hrecorded.put hcall, ?_⟩
      dsimp only [Ledger.step]
      rw [hread]
      exact hfed.put (push_suffix _ _ _)
    · rw [List.map_append, h.starts, List.map_append]
      rfl
    · rw [List.length_append, h.counted]
      rfl
    · dsimp only
      by_cases hcount : (w.count + 1) % 100 = 0
      · rw [if_pos hcount, List.map_append, h.dumped, show (w.count + 1) / 100 = w.count / 100 + 1 by omega,
          List.range_succ, List.map_append, List.map_singleton, List.map_singleton,
          show w.count + 1 = 100 * (w.count / 100 + 1) by omega]
      · rw [if_neg hcount, h.dumped, show (w.count + 1) / 100 = w.count / 100 by omega]
    · have hold : ∀ d ∈ w.dumps, d.2.length = d.1 ∧ d.2 <+: w.results ++ [(P.value timestamp, s1, e1)] := by
        intro d hd
        obtain ⟨hlen, hinitial⟩ := h.dumps d hd
        exact ⟨hlen, hinitial.trans (List.prefix_append _ _)⟩
      intro d hd
      dsimp only at hd
      split_ifs at hd with hcount
      · rcases List.mem_append.mp hd with hd | hd
        · exact hold d hd
        · obtain rfl := List.mem_singleton.mp hd
          refine ⟨?_, List.prefix_refl _⟩
          rw [List.length_append, ← h.count_eq]
          rfl
      · exact hold d hd
  · cases hstep

/-- Every event keeps the invariant of the pipeline; a publication adds its frame. -/
theorem Delivering.step (h : Delivering P frames taken chosen put w) (hlib : P.library.Documented)
    (hdeadline : 0 < P.deadlineMs) (hstamp : ∀ x ∈ frames, P.value x.2 ≠ 99999) {e : Event τ}
    (hstep : P.step v rounds w e = some w') : ∃ taken' chosen' put',
      Delivering P (frames ++ published [e]) taken' chosen' put' w' := by
  cases e with
  | publish data timestamp => exact ⟨_, _, _, h.publish hstep⟩
  | take s1 =>
    obtain ⟨taken', chosen', h'⟩ := h.take hstamp hstep
    rw [published, List.filterMap_cons_none rfl, List.filterMap_nil, List.append_nil]
    exact ⟨_, _, _, h'⟩
  | forward e1 =>
    obtain ⟨put', h'⟩ := h.forward hlib hdeadline hstep
    rw [published, List.filterMap_cons_none rfl, List.filterMap_nil, List.append_nil]
    exact ⟨_, _, _, h'⟩
  | receive object =>
    rw [published, List.filterMap_cons_none rfl, List.filterMap_nil, List.append_nil]
    exact ⟨_, _, _, h.receive hstep⟩
  | gettime object top =>
    rw [published, List.filterMap_cons_none rfl, List.filterMap_nil, List.append_nil]
    exact ⟨_, _, _, h.look (.inl ⟨top, rfl⟩) hstep⟩
  | isEmpty object =>
    rw [published, List.filterMap_cons_none rfl, List.filterMap_nil, List.append_nil]
    exact ⟨_, _, _, h.look (.inr rfl) hstep⟩
  | other object k =>
    rw [published, List.filterMap_cons_none rfl, List.filterMap_nil, List.append_nil]
    exact ⟨_, _, _, h.other hstep⟩

/-- The invariant holds after every run, of the frames that it has published. -/
theorem delivering_run {events : List (Event τ)} (hlib : P.library.Documented) (hdeadline : 0 < P.deadlineMs)
    (hstamp : ∀ x ∈ published events, P.value x.2 ≠ 99999) (hrun : P.run v rounds events = some w) :
    ∃ taken chosen put, Delivering P (published events) taken chosen put w := by
  induction events using List.reverseRecOn generalizing w with
  | nil =>
    obtain rfl := Option.some.inj hrun
    exact ⟨_, _, _, delivering_start P⟩
  | append_singleton events e ih =>
    rw [PreProcessing.run, List.foldlM_append] at hrun
    obtain ⟨w₀, hrun₀, hlast⟩ := Option.bind_eq_some_iff.mp hrun
    rw [List.foldlM_cons] at hlast
    obtain ⟨w₁, hstep, hw⟩ := Option.bind_eq_some_iff.mp hlast
    obtain rfl := Option.some.inj hw
    have hpublished : published (events ++ [e]) = published events ++ published [e] := List.filterMap_append
    rw [hpublished] at hstamp ⊢
    have hstamp₀ : ∀ x ∈ published events, P.value x.2 ≠ 99999 := fun x hx => hstamp x (List.mem_append_left _ hx)
    obtain ⟨taken, chosen, put, h⟩ := ih hstamp₀ hrun₀
    exact h.step hlib hdeadline hstamp₀ hstep

/-- The application has got a part of what was put. -/
theorem Delivering.received_sublist (h : Delivering P frames taken chosen put w) : w.received.Sublist put := by
  cases happ : w.app with
  | none =>
    rw [(h.unused happ).2.2]
    exact List.nil_sublist put
  | some created =>
    obtain ⟨-, l, -, hfed⟩ := h.app created.1 created.2 happ
    exact hfed.sublist

/-- Read in the shape of the queue, a frame of this shape is what was put. -/
theorem asRead_of_shaped {q : CrossQueue τ} {x : Bytes × τ} (hx : q.Shaped x.1) (hread : q.Shaped (asRead x).1) :
    asRead x = x := by
  have hcut : cut x.1 = x.1 := (cut_initial x.1).eq_of_length (hread.trans hx.symm)
  exact Prod.ext hcut rfl

/-- The frames that are chosen are frames of the sensor, unchanged and in order. -/
theorem Delivering.chosen_sublist (h : Delivering P frames taken chosen put w)
    (hshaped : ∀ x ∈ frames, P.sensorQueue.Shaped x.1) : chosen.Sublist frames := by
  obtain ⟨l, -, hfed⟩ := h.sensor
  obtain ⟨originals, hsublist, rfl⟩ := List.sublist_map_iff.mp hfed.sublist
  have hsame : originals.map asRead = originals := by
    refine (List.map_congr_left fun x hx => ?_).trans (List.map_id originals)
    exact asRead_of_shaped (hshaped x (hsublist.subset hx)) (h.shaped _ (List.mem_map_of_mem hx))
  have hpassed := h.passed
  rw [hsame] at hpassed
  exact hpassed.trans hsublist

end Pipeline

end Soar.Preprocessing
