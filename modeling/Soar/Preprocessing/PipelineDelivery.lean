import Soar.Preprocessing.Pipeline

/-! What an application gets of the frames of a sensor, and what `write_to_results` leaves of them. -/
namespace Soar.Preprocessing
open Soar.Library Soar.Computing

variable {τ : Type}

private theorem isDigit_zero : isDigit 0 = false := rfl

/-- Five slots for the pictures of a camera, its timestamps whole seconds. -/
def cameraQueue (shape : List Nat) : CrossQueue (Fin (2 ^ 53)) where
  maxLength := 5
  frontKeys := 1
  shape := shape
  itemsize := 1
  maxDataSize := 16
  blank := 0
  timestamp := wholeSeconds
  rereadsRear := false
  two_le_maxLength := two_le_maxLength_appQueue
  isDigit_blank := isDigit_zero

/-- A camera for an application that takes pictures of the size `imgSize`. -/
def smallCamera (dataShape imgSize : Nat × Nat × Nat) : PreProcessing (Fin (2 ^ 53)) where
  sensorQueue := cameraQueue [dataShape.1, dataShape.2.1, dataShape.2.2]
  key := ⟨0, Nat.one_pos⟩
  dataShape := dataShape
  processer := ⟨imgSize, 32⟩
  library := unscaledLibrary
  getsizeof img := img.shape.1 * (img.shape.2.1 * (img.shape.2.2 * 8)) + 144
  appKeys := 1
  appKey := ⟨0, Nat.one_pos⟩
  preItemsize := 8
  deadlineMs := 100
  value := fun t => t.val

/-- Two pixels for an application that takes squares of four. -/
def twoPixels : PreProcessing (Fin (2 ^ 53)) := smallCamera (1, 2, 3) (3, 2, 2)

def frameEvents : List (Event (Fin (2 ^ 53))) :=
  [.publish [1, 2, 3, 4, 5, 6] (payloads 1).2, .take 0, .forward 0, .receive 1]

private theorem published_frameEvents : published frameEvents = [([1, 2, 3, 4, 5, 6], (payloads 1).2)] := rfl

private theorem value_frameEvents : ∀ x ∈ published frameEvents, twoPixels.value x.2 ≠ 99999 := by
  intro x hx
  rw [published_frameEvents, List.mem_singleton] at hx
  rw [hx]
  decide +kernel

/-- Whatever the processes' turns, the application gets frames of the sensor, processed, in order and each once, and
the deadline lies between any two of them. -/
theorem pipeline_delivers {P : PreProcessing τ} {v : Version} {rounds : Nat} {events : List (Event τ)} {w : Pipeline τ}
    (hlib : P.library.Documented) (hdeadline : 0 < P.deadlineMs)
      (hshaped : ∀ x ∈ published events, P.sensorQueue.Shaped x.1)
    (hstamp : ∀ x ∈ published events, P.value x.2 ≠ 99999) (hrun : P.run v rounds events = some w) :
    ∃ frames : List (Bytes × τ), frames.Sublist (published events) ∧
      frames.map P.image = w.received.map (fun y => (some y.1, y.2)) ∧ frames.Pairwise P.Gap := by
  obtain ⟨taken, chosen, put, h⟩ := Pipeline.delivering_run hlib hdeadline hstamp hrun
  have hreceived : (w.received.map fun y : Bytes × τ => (some y.1, y.2)).Sublist (chosen.map P.image) := by
    rw [h.images, List.map_append]
    exact (h.received_sublist.map _).trans (List.sublist_append_left _ _)
  obtain ⟨frames, hframes, himages⟩ := List.sublist_map_iff.mp hreceived
  exact ⟨frames, hframes.trans (h.chosen_sublist hshaped), himages.symm, (h.gaps hdeadline).sublist hframes⟩

/-- One picture of two pixels on its way to the application. -/
theorem pipeline_delivers_twoPixels : ∃ (w : Pipeline (Fin (2 ^ 53))) (frames : List (Bytes × Fin (2 ^ 53))),
    twoPixels.run .cross 1 frameEvents = some w ∧ frames.length = 1 ∧ frames.Sublist (published frameEvents) ∧
      frames.map twoPixels.image = w.received.map (fun y => (some y.1, y.2)) ∧ frames.Pairwise twoPixels.Gap := by
  have hruns : ((twoPixels.run .cross 1 frameEvents).map fun w => w.received.length) = some 1 := by decide +kernel
  obtain ⟨w, hrun, hlength⟩ := Option.map_eq_some_iff.mp hruns
  have hshaped : ∀ x ∈ published frameEvents, twoPixels.sensorQueue.Shaped x.1 := by
    intro x hx
    rw [published_frameEvents, List.mem_singleton] at hx
    rw [hx]
    rfl
  obtain ⟨frames, hframes⟩ := pipeline_delivers unscaledLibrary_documented (by decide) hshaped value_frameEvents hrun
  have himages := congrArg List.length hframes.2.1
  rw [List.length_map, List.length_map, hlength] at himages
  exact ⟨w, frames, hrun, himages, hframes⟩

/-- A camera application with documented library functions, and timestamps whose texts fit into their segments. -/
structure PreProcessing.Camera (P : PreProcessing τ) : Prop where
  library : P.library.Documented
  getsizeof : ∀ img, img.tobytes.length + 4 ≤ P.getsizeof img
  sides : 0 < P.dataShape.1 ∧ 0 < P.dataShape.2.1
  channels : P.dataShape.2.2 = 3
  colours : P.processer.imgSize.1 = 3
  bounds : P.processer.imgSize.2.1 < 2 ^ 31 ∧ P.processer.imgSize.2.2 < 2 ^ 31
  stamps : ∀ t, (P.sensorQueue.timestamp.str t).length + 4 ≤ 32

namespace PreProcessing.Camera

variable {P : PreProcessing τ} {data : Bytes} {preData : NDArray ℚ} {queue : CrossQueue τ}

/-- Every processed frame has the size of the application. -/
theorem shape_eq (h : P.Camera) (hprocess : P.process data = some preData) : preData.shape = P.processer.imgSize := by
  have hspec : if (P.processer.scaledSize P.library (decode P.dataShape data)).1 = 0 ∨
      (P.processer.scaledSize P.library (decode P.dataShape data)).2 = 0 then
        P.processer.imageResize P.library (decode P.dataShape data) = none
      else ∃ out, P.processer.imageResize P.library (decode P.dataShape data) = some out ∧
        Processed P.processer P.library (decode P.dataShape data) out :=
    DataProcesser.imageResize_spec h.library h.colours h.bounds ⟨h.sides, h.channels⟩
  unfold PreProcessing.process at hprocess
  rw [hprocess] at hspec
  split_ifs at hspec
  obtain ⟨out, heq, hprocessed⟩ := hspec
  obtain rfl := Option.some.inj heq
  exact hprocessed.shape

/-- The queue that was created for one frame has room for every other one. -/
theorem fits (h : P.Camera) (hcreated : Pipeline.Created P queue) (hprocess : P.process data = some preData) :
    preData.tobytes.length + 4 ≤ queue.maxDataSize := by
  obtain ⟨data', first, hfirst, rfl⟩ := hcreated
  have hlength : preData.tobytes.length = first.tobytes.length := by
    rw [NDArray.length_tobytes, NDArray.length_tobytes, h.shape_eq hprocess, h.shape_eq hfirst]
  rw [hlength]
  exact h.getsizeof first

theorem textsFit (h : P.Camera) (hcreated : Pipeline.Created P queue) : queue.TextsFit := by
  obtain ⟨data', first, -, rfl⟩ := hcreated
  refine ⟨fun i hi => ?_, h.stamps⟩
  have hi : i < 10 ^ 1 := lt_trans hi (by decide : 5 < 10 ^ 1)
  have hlength := length_str_le Nat.one_pos hi
  omega

end PreProcessing.Camera

/-- In every state that the processes reach with a processed frame, this has the size of the frame that the application's
queue was created for, and its `put` completes. -/
theorem forward_completes {P : PreProcessing τ} (hcamera : P.Camera) {v : Version} {rounds : Nat}
    {events : List (Event τ)} {w : Pipeline τ} (hdeadline : 0 < P.deadlineMs)
    (hstamp : ∀ x ∈ published events, P.value x.2 ≠ 99999) (hrun : P.run v rounds events = some w)
    {preData : NDArray ℚ} {timestamp : τ} {s1 : ℚ} (hpending : w.pending = some (preData, timestamp, s1)) :
    ∃ first app, w.app = some (P.appQueue first, app) ∧ preData.shape = first.shape ∧
      first.shape = P.processer.imgSize ∧ ∀ e1, (P.step v rounds w (.forward e1)).isSome := by
  obtain ⟨taken, chosen, put, h⟩ := Pipeline.delivering_run hcamera.library hdeadline hstamp hrun
  obtain ⟨data, hprocess⟩ := h.processed _ hpending
  cases happ : w.app with
  | none => cases (h.unused happ).1.symm.trans hpending
  | some created =>
    obtain ⟨queue, app⟩ := created
    obtain ⟨hcreated, l, hrecorded, -⟩ := h.app queue app happ
    have hforward (e1 : ℚ) : (P.step v rounds w (.forward e1)).isSome := by
      obtain ⟨app', hput⟩ := hrecorded.put_completes (hcamera.textsFit hcreated) (hcamera.fits hcreated hprocess)
        timestamp rounds 0
      rw [PreProcessing.step, PreProcessing.forward, hpending, happ]
      dsimp only
      rw [hput]
      rfl
    obtain ⟨data', first, hfirst, rfl⟩ := hcreated
    exact ⟨first, app, rfl, (hcamera.shape_eq hprocess).trans (hcamera.shape_eq hfirst).symm, hcamera.shape_eq hfirst,
      hforward⟩

theorem smallCamera_camera {dataShape imgSize : Nat × Nat × Nat} (hsides : 0 < dataShape.1 ∧ 0 < dataShape.2.1)
    (hchannels : dataShape.2.2 = 3) (hcolours : imgSize.1 = 3) (hbounds : imgSize.2.1 < 2 ^ 31 ∧ imgSize.2.2 < 2 ^ 31) :
    (smallCamera dataShape imgSize).Camera where
  library := unscaledLibrary_documented
  getsizeof img := by
    rw [NDArray.length_tobytes]
    exact Nat.add_le_add_left (by decide) _
  sides := hsides
  channels := hchannels
  colours := hcolours
  bounds := hbounds
  stamps := (textsFit_twoSlots 1).2

/-- The picture waits to be put. -/
theorem forward_completes_twoPixels : ∃ w preData timestamp s1, twoPixels.run .cross 1 (frameEvents.take 2) = some w ∧
    w.pending = some (preData, timestamp, s1) ∧ (twoPixels.step .cross 1 w (.forward 0)).isSome := by
  have hruns : ((twoPixels.run .cross 1 (frameEvents.take 2)).map fun w => w.pending.isSome) = some true := by
    decide +kernel
  obtain ⟨w, hrun, hpending⟩ := Option.map_eq_some_iff.mp hruns
  obtain ⟨⟨preData, timestamp, s1⟩, hwaits⟩ := Option.isSome_iff_exists.mp hpending
  have hcamera : twoPixels.Camera := smallCamera_camera (by decide) rfl rfl (by decide)
  have hstamp : ∀ x ∈ published (frameEvents.take 2), twoPixels.value x.2 ≠ 99999 := value_frameEvents
  obtain ⟨first, app, -, -, -, hforward⟩ := forward_completes hcamera (by decide) hstamp hrun hwaits
  exact ⟨w, preData, timestamp, s1, hrun, hwaits, hforward 0⟩

/-- Each frame is forwarded before the next one is put. -/
def inStep (frames : List (Bytes × τ)) : List (Event τ) :=
  frames.flatMap fun x => [.publish x.1 x.2, .take 0, .forward 0]

/-- Nothing waits for the processes. -/
structure Steady (P : PreProcessing τ) (w : Pipeline τ) : Prop where
  sensor : ∃ queues, Represents P.sensorQueue w.sensor queues ∧ queues P.key = []
  idle : w.pending = none
  app : ∀ queue app, w.app = some (queue, app) → Pipeline.Created P queue ∧ ∃ l, Recorded queue app l

/-- The frame passes the test of the loop. -/
def Pipeline.Passes (P : PreProcessing τ) (w : Pipeline τ) (x : Bytes × τ) : Prop :=
  P.deadline ≤ double (P.value x.2 - w.lastStamp) ∨ w.lastStamp = 99999

section
variable {P : PreProcessing τ} {v : Version} {rounds : Nat} {w : Pipeline τ} {x : Bytes × τ}

theorem steady_start (P : PreProcessing τ) : Steady P P.start where
  sensor := ⟨_, P.sensorQueue.callers_represents, rfl⟩
  idle := rfl
  app := nofun

/-- A frame that is published is taken, forwarded and got before the next one. -/
theorem Steady.round (h : Steady P w) (hcamera : P.Camera) (hfit : P.sensorQueue.TextsFit)
    (hproper : (Operation.put x.1 x.2).Proper P.sensorQueue) {preData : NDArray ℚ}
    (hprocess : P.process x.1 = some preData) (hpasses : w.Passes P x) :
    ∃ w', (inStep [x]).foldlM (P.step v (rounds + 1)) w = some w' ∧ Steady P w' ∧ w'.lastStamp = P.value x.2 ∧
      w'.count = w.count + 1 := by
  obtain ⟨queues, hrepresents, hempty⟩ := h.sensor
  obtain ⟨sensor₁, hput, hrepresents₁⟩ :=
    (hrepresents.step (v := v) rounds (c := ⟨0, .put x.1 x.2⟩) hproper rfl).resolve_right fun hnone => hnone.2 hfit
  have hhead : push P.sensorQueue.maxLength x (queues P.key) = [x] := by
    rw [hempty, push]
    simp
  have hfifo : fifoStep P.sensorQueue.maxLength (fun k => push P.sensorQueue.maxLength x (queues k))
      (.get P.key) = some (.item x.1 x.2,
        Function.update (fun k => push P.sensorQueue.maxLength x (queues k)) P.key []) := by
    unfold fifoStep
    dsimp only
    rw [hhead]
  obtain ⟨sensor₂, hget, hrepresents₂⟩ :=
    (hrepresents₁.step (v := v) rounds (c := ⟨1, .get P.key⟩) P.key.isLt hfifo).resolve_right fun hnone => hnone.2 hfit
  -- the queue of the application, or a new one
  obtain ⟨queue, app, hopen, hcreated, l, hrecorded⟩ : ∃ queue app,
      w.app.getD (P.appQueue preData, (P.appQueue preData).callers) = (queue, app) ∧ Pipeline.Created P queue ∧
        ∃ l, Recorded queue app l := by
    cases happ : w.app with
    | none => exact ⟨_, _, rfl, ⟨x.1, preData, hprocess, rfl⟩, {}, (P.appQueue preData).callers_recorded⟩
    | some created =>
      obtain ⟨hcreated, hrecorded⟩ := h.app created.1 created.2 happ
      exact ⟨_, _, rfl, hcreated, hrecorded⟩
  obtain ⟨app', hforward⟩ := hrecorded.put_completes (v := v) (hcamera.textsFit hcreated)
      (hcamera.fits hcreated hprocess)
    x.2 (rounds + 1) 0
  let taken : Pipeline τ := { w with
    sensor := sensor₂
    pending := some (preData, x.2, 0)
    lastStamp := P.value x.2
    app := some (queue, app) }
  have hpublish : P.step v (rounds + 1) w (.publish x.1 x.2) = some { w with sensor := sensor₁ } := by
    rw [PreProcessing.step, hput]
    rfl
  have htake : P.step v (rounds + 1) { w with sensor := sensor₁ } (.take 0) = some taken := by
    rw [PreProcessing.step, PreProcessing.take]
    dsimp only
    have hidle : ¬ w.pending.isSome := by
      rw [h.idle]
      exact Bool.false_ne_true
    rw [if_neg hidle, hget]
    dsimp only
    unfold Pipeline.Passes at hpasses
    rw [if_pos hpasses, hprocess, Option.map_some, hopen]
  let forwarded := Pipeline.writeToResults { taken with pending := none, app := some (queue, app') } (P.value x.2) 0 0
  have hlast : P.step v (rounds + 1) taken (.forward 0) = some forwarded := by
    change (app.step queue v (rounds + 1) ⟨0, .put preData.tobytes x.2⟩).map _ = _
    rw [hforward]
    rfl
  refine ⟨forwarded, ?_, ⟨?_, rfl, ?_⟩, rfl, rfl⟩
  · change (P.step v (rounds + 1) w (.publish x.1 x.2)).bind (fun w => (P.step v (rounds + 1) w (.take 0)).bind
      fun w => (P.step v (rounds + 1) w (.forward 0)).bind some) = _
    rw [hpublish, Option.bind_some, htake, Option.bind_some, hlast, Option.bind_some]
  · exact ⟨_, hrepresents₂, Function.update_self ..⟩
  · rintro queue' app'' ⟨⟩
    exact ⟨hcreated, _, hrecorded.put hforward⟩

/-- Frames that lie far enough apart are all forwarded. -/
theorem Steady.run (hcamera : P.Camera) (hfit : P.sensorQueue.TextsFit) {frames : List (Bytes × τ)}
    (hproper : ∀ x ∈ frames, (Operation.put x.1 x.2).Proper P.sensorQueue)
    (hprocess : ∀ x ∈ frames, (P.process x.1).isSome) (hspaced : frames.IsChain P.Spaced) :
    ∃ w, P.run v (rounds + 1) (inStep frames) = some w ∧ Steady P w ∧ w.count = frames.length := by
  have hfrom (frames : List (Bytes × τ)) (w : Pipeline τ) (h : Steady P w)
      (hproper : ∀ x ∈ frames, (Operation.put x.1 x.2).Proper P.sensorQueue)
      (hprocess : ∀ x ∈ frames, (P.process x.1).isSome) (hspaced : frames.IsChain P.Spaced)
      (hhead : ∀ x ∈ frames.head?, w.Passes P x) :
      ∃ w', (inStep frames).foldlM (P.step v (rounds + 1)) w = some w' ∧ Steady P w' ∧
        w'.count = w.count + frames.length := by
    induction frames generalizing w with
    | nil => exact ⟨w, rfl, h, rfl⟩
    | cons x frames ih =>
      obtain ⟨hx, hproper⟩ := List.forall_mem_cons.mp hproper
      obtain ⟨hpre, hprocess⟩ := List.forall_mem_cons.mp hprocess
      obtain ⟨preData, hpre⟩ := Option.isSome_iff_exists.mp hpre
      obtain ⟨hnext, hspaced⟩ := List.isChain_cons.mp hspaced
      obtain ⟨w₁, hround, h₁, hlast, hcount⟩ := h.round hcamera hfit hx hpre (hhead x rfl)
      obtain ⟨w', hrun, h', hcount'⟩ := ih w₁ h₁ hproper hprocess hspaced fun y hy => .inl (by
        rw [hlast]
        exact hnext y hy)
      refine ⟨w', ?_, h', ?_⟩
      · rw [show inStep (x :: frames) = inStep [x] ++ inStep frames from rfl, List.foldlM_append, hround]
        exact hrun
      · rw [hcount', hcount, List.length_cons]
        omega
  obtain ⟨w, hrun, h, hcount⟩ := hfrom frames P.start (steady_start P) hproper hprocess hspaced fun _ _ => .inr rfl
  exact ⟨w, hrun, h, hcount.trans (Nat.zero_add _)⟩

end

/-- The files that `write_to_results` leaves are those of the hundreds of frames that were forwarded; the one after `n`
calls holds the times of all of the first `n` frames. -/
theorem dumps_complete {P : PreProcessing τ} {v : Version} {rounds : Nat} {events : List (Event τ)} {w : Pipeline τ}
    (hlib : P.library.Documented) (hdeadline : 0 < P.deadlineMs) (hstamp : ∀ x ∈ published events, P.value x.2 ≠ 99999)
    (hrun : P.run v rounds events = some w) :
    w.count = w.results.length ∧ (w.results.map Prod.fst).Pairwise (· < ·) ∧
      w.dumps.map Prod.fst = (List.range (w.count / 100)).map (fun n => 100 * (n + 1)) ∧
        ∀ d ∈ w.dumps, d.2 = w.results.take d.1 ∧ d.2.length = d.1 := by
  obtain ⟨taken, chosen, put, h⟩ := Pipeline.delivering_run hlib hdeadline hstamp hrun
  refine ⟨h.count_eq, ?_, h.dumped, ?_⟩
  · have htimes := h.times_lt hdeadline
    rw [List.map_append, List.pairwise_append] at htimes
    rw [h.starts]
    exact htimes.1
  · intro d hd
    obtain ⟨hlen, hinitial⟩ := h.dumps d hd
    refine ⟨?_, hlen⟩
    rw [← hlen]
    exact List.prefix_iff_eq_take.mp hinitial

private theorem hundred_le : 100 ≤ 2 ^ 53 := by
  decide

/-- A hundred frames of a single pixel, one every second. -/
def hundredFrames : List (Bytes × Fin (2 ^ 53)) :=
  (List.finRange 100).map fun n => ([1, 2, 3], n.castLE hundred_le)

def onePixel : PreProcessing (Fin (2 ^ 53)) := smallCamera (1, 1, 3) (3, 1, 1)

private theorem published_hundredFrames : published (inStep hundredFrames) = hundredFrames := by
  decide +kernel

private theorem spaced_hundredFrames : hundredFrames.IsChain onePixel.Spaced := by
  unfold PreProcessing.Spaced
  decide +kernel

/-- A hundred pictures are forwarded, and the results are written to a file. -/
theorem dumps_complete_hundredFrames : ∃ w results, onePixel.run .cross 1 (inStep hundredFrames) = some w ∧
    (100, results) ∈ w.dumps ∧ results = w.results ∧ results.length = 100 := by
  have hcamera : onePixel.Camera := smallCamera_camera (by decide) rfl rfl (by decide)
  have hfit : onePixel.sensorQueue.TextsFit := by
    refine ⟨fun i hi => ?_, hcamera.stamps⟩
    have hi : i < 10 ^ 1 := lt_trans hi (by decide : 5 < 10 ^ 1)
    have hlength := length_str_le Nat.one_pos hi
    omega
  have hproper : ∀ x ∈ hundredFrames, (Operation.put x.1 x.2).Proper onePixel.sensorQueue := by decide +kernel
  have hprocess : ∀ x ∈ hundredFrames, (onePixel.process x.1).isSome := by
    intro x hx
    obtain ⟨n, -, rfl⟩ := List.mem_map.mp hx
    change (onePixel.process [1, 2, 3]).isSome
    decide +kernel
  have hstamp : ∀ x ∈ published (inStep hundredFrames), onePixel.value x.2 ≠ 99999 := by
    rw [published_hundredFrames]
    decide +kernel
  obtain ⟨w, hrun, -, hcount⟩ := @Steady.run _ onePixel .cross 0 hcamera hfit _ hproper hprocess spaced_hundredFrames
  have hcount : w.count = 100 := hcount.trans (by decide +kernel)
  obtain ⟨hlength, -, hdumped, hdumps⟩ := dumps_complete unscaledLibrary_documented (by decide) hstamp hrun
  have hmem : 100 ∈ w.dumps.map Prod.fst := by
    rw [hdumped, hcount]
    decide
  obtain ⟨⟨n, results⟩, hd, rfl⟩ := List.mem_map.mp hmem
  obtain ⟨htake, hresults⟩ := hdumps _ hd
  refine ⟨w, results, hrun, hd, htake.trans (List.take_of_length_le ?_), hresults⟩
  rw [← hlength, hcount]

end Soar.Preprocessing
