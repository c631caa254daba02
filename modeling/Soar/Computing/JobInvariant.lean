import Soar.Computing.JobQueue
import Soar.Computing.RingRuns

/-! What the scheduler knows of the head of the queue, and how a put may change it. -/
namespace Soar.Computing
open Soar.Library

namespace JobPoint

@[simp] def holdsRear : JobPoint → Prop
  | sizeReadRear | sizeReleaseRear => True
  | timeReadRear | timeAcquireFront | timeReadFront | timeReadTime | timeReleaseFront | timeReleaseRear => True
  | _ => False

@[simp] def holdsFront : JobPoint → Prop
  | sizeReadFront | sizeReleaseFront | timeReadFront | timeReadTime | timeReleaseFront => True
  | _ => False

/-- `gettime` has read the rear. -/
@[simp] def knowsRear : JobPoint → Prop
  | timeAcquireFront | timeReadFront | timeReadTime => True
  | _ => False

/-- `gettime` has read the front. -/
@[simp] def hasTimes : JobPoint → Prop
  | timeReadTime | timeReleaseFront | timeReleaseRear => True
  | _ => False

theorem hasTimes.holdsRear {p : JobPoint} (h : p.hasTimes) : p.holdsRear := by
  cases p <;> first | exact trivial | exact h

theorem knowsRear.holdsRear {p : JobPoint} (h : p.knowsRear) : p.holdsRear := by
  cases p <;> first | exact trivial | exact h

end JobPoint

section
variable {τ : Type}

/-- An object that falls back on its cache finds the rear and the front of the ring. -/
structure Cached (q : CrossQueue τ) (ring : Ring) (count : Nat) (cache : Cache) : Prop where
  rear : readInt cache.rear (ring.mem .rear) = count % q.maxLength
  front : readInt cache.front (ring.mem (.front 0)) = (ring.history 0).length % q.maxLength

/-- The times that `gettime` has read from the front on. -/
structure Timed (q : CrossQueue τ) (items : Nat → Bytes × τ) (ring : Ring) (p : Producer) (s : Jobs τ) : Prop where
  times : s.times = (List.range s.times.length).map fun i => (items ((ring.history 0).length + i)).2
  le : (ring.history 0).length + s.times.length ≤ p.count
  timeFront : s.timeFront = ((ring.history 0).length + s.times.length) % q.maxLength

/-- The scheduler's object, its semaphores and what it has read. -/
structure Selecting (q : CrossQueue τ) (items : Nat → Bytes × τ) (ring : Ring) (p : Producer) (s : Jobs τ) : Prop where
  object : ∀ agent, Cached q ring p.count (s.object agent)
  holdsRear : s.point.holdsRear → ring.holder .rear = some (.consumer 0)
  holdsFront : s.point.holdsFront → ring.holder (.front 0) = some (.consumer 0)
  rear : s.point.knowsRear → (s.object .scheduler).rear = p.count % q.maxLength
  timed : s.point.hasTimes → Timed q items ring p s
  room : s.point = .timeReadTime → (ring.history 0).length + s.times.length < p.count
  top : 0 < s.top

/-- The keys of the other consumers are not in use. -/
def callers (call : Consumer τ) : Nat → Consumer τ := Function.update (fun _ => {}) 0 call

/-- The invariant of the ring, and what the scheduler has read of it. -/
structure Serving (q : CrossQueue τ) (items : Nat → Bytes × τ) (w : JobSystem τ) : Prop where
  inv : Inv q .infer items w.ring w.producer (callers w.jobs.call)
  selecting : Selecting q items w.ring w.producer w.jobs
  idle : (∀ agent, w.jobs.point ≠ .get agent) → w.jobs.call.point = .acquireRear

/-- The head stays the one whose timestamp was chosen. -/
structure JobInv (q : CrossQueue τ) (items : Nat → Bytes × τ) (w : JobSystem τ) : Prop extends Serving q items w where
  startTime : ∀ agent, w.jobs.point = .get agent → w.jobs.call.point ≠ .unlockFront →
    w.jobs.startTime = some (items (w.ring.history 0).length).2
  removed : w.jobs.call.point = .unlockFront → ∃ n, (w.ring.history 0)[n]? = some .taken ∧
    w.jobs.call.data = (items n).1 ∧ w.jobs.call.timestamp = some (items n).2 ∧ w.jobs.startTime = some (items n).2
  identified : w.Identified items

/-- The step is no overflow that moves the front between the end of `gettime` and the end of the
`get` that follows, and no `get` that returns nothing because the data lacks the shape. -/
def JobSystem.kept (q : CrossQueue τ) (w : JobSystem τ) : JobTurn → Bool
  | .producer =>
    match w.producer.point, w.jobs.point with
    | .writeFront 0, .get _ => false
    | _, _ => true
  | .consumer _ =>
    match w.jobs.point, w.jobs.call.point with
    | .get _, .unlockFront => decide (q.Shaped w.jobs.call.data)
    | _, _ => true

variable {q : CrossQueue τ} {items sent : Nat → Bytes × τ} {w : JobSystem τ} {ring : Ring} {p : Producer}

/-! The producer's steps. -/

private theorem put_frees (h : Put q items ring p) {l : Semaphore} (hl : (q.put sent p).Frees l) :
    ring.holder l = some .producer := by
  rw [CrossQueue.put] at hl
  by_cases hr : p.raised
  · rw [if_pos hr] at hl
    exact hl.elim
  rw [if_neg hr] at hl
  cases hp : p.point with
  | releaseFront k =>
    rw [hp] at hl
    obtain rfl := hl
    exact h.holdsFront k (by simp [hp])
  | releaseRear =>
    rw [hp] at hl
    obtain rfl := hl
    exact h.holdsRear (by simp [hp])
  | writeData =>
    simp only [hp] at hl
    split_ifs at hl <;> exact hl.elim
  | _ => rw [hp] at hl; exact hl.elim

private theorem put_history (ring : Ring) (p : Producer) {k : Nat} (hp : p.point ≠ .writeFront k) :
    ((q.put items p).exec .producer ring p).1.history k = ring.history k := by
  have hnote : (q.put items p).note ring.history k = ring.history k := by
    rw [CrossQueue.put]
    by_cases hr : p.raised
    · rw [if_pos hr]
      rfl
    rw [if_neg hr]
    cases hpoint : p.point with
    | writeFront i =>
      refine Function.update_of_ne ?_ ..
      rintro rfl
      exact hp hpoint
    | writeData =>
      dsimp only
      split_ifs <;> rfl
    | _ => rfl
  rcases Action.exec_history (q.put items p) .producer ring p with he | he
  · rw [he]
  · rw [he, hnote]

/-- While another process holds the rear, no put is under way. -/
theorem Put.point_of_holder (h : Put q items ring p) {t : Process} (ht : t ≠ .producer)
    (hholder : ring.holder .rear = some t) : p.point = .acquireRear := by
  by_contra hne
  have hholds : p.point.holdsRear := by
    generalize p.point = point at hne
    cases point <;> first | exact trivial | exact absurd rfl hne
  exact ht (Option.some.inj (hholder.symm.trans (h.holdsRear hholds)))

private theorem put_blocked (h : Put q items ring p) {t : Process} (ht : t ≠ .producer)
    (hholder : ring.holder .rear = some t) : (q.put sent p).exec .producer ring p = (ring, p) := by
  rw [CrossQueue.put]
  by_cases hr : p.raised
  · rw [if_pos hr]
    rfl
  · simp [hr, h.point_of_holder ht hholder, Action.exec, hholder]

private theorem Cached.written {cache : Cache} {count : Nat} (h : Cached q ring count cache) {s : Segment}
    (hr : s ≠ .rear) (hf : s ≠ .front 0) (text : Bytes) :
    Cached q { ring with mem := Function.update ring.mem s text } count cache where
  rear := by
    dsimp only
    rw [Function.update_of_ne hr.symm]
    exact h.rear
  front := by
    dsimp only
    rw [Function.update_of_ne hf.symm]
    exact h.front

/-- Where `str` has written the new front, every cache finds it. -/
theorem Cached.movedFront {cache : Cache} {count front : Nat} (h : Cached q ring count cache) {text : Bytes} (m : Move)
    (hfront : front = (ring.history 0).length % q.maxLength)
    (hw : writeToMemory (str ((front + 1) % q.maxLength)) (ring.mem (.front 0)) = some text) :
    Cached q { ring with mem := Function.update ring.mem (.front 0) text, history := logMove 0 m ring.history } count
      cache where
  rear := by
    dsimp only
    rw [Function.update_of_ne Segment.noConfusion]
    exact h.rear
  front := by
    dsimp only [logMove]
    rw [Function.update_self, Function.update_self, readInt_writeToMemory hw, hfront, Nat.mod_add_mod,
      List.length_append, List.length_singleton]

private theorem Cached.put_step {cache : Cache} {cs : Nat → Consumer τ} {v : Version} (h : Cached q ring p.count cache)
    (hinv : Inv q v items ring p cs) (hkey : 0 < q.frontKeys) :
    Cached q ((q.put sent p).exec .producer ring p).1 ((q.put sent p).exec .producer ring p).2.count cache := by
  rw [CrossQueue.put]
  by_cases hr : p.raised
  · rw [if_pos hr]
    exact h
  rw [if_neg hr]
  cases hp : p.point with
  | acquireRear | acquireFront =>
    dsimp only [Action.exec]
    split <;> exact ⟨h.rear, h.front⟩
  | writeData =>
    dsimp only
    split_ifs
    · rw [Action.exec]
      split
      · exact h.written (s := .data p.rear) Segment.noConfusion Segment.noConfusion _
      · exact h
    · exact h
  | writeTime =>
    rw [Action.exec]
    split
    · exact h.written (s := .time p.rear) Segment.noConfusion Segment.noConfusion _
    · exact h
  | writeFront k =>
    rw [Action.exec]
    split
    · by_cases hk : k = 0
      · subst hk
        exact h.movedFront _ ((hinv.key 0 hkey).full hp).1 ‹_›
      · have hwritten := h.written (s := .front k) Segment.noConfusion (fun he => hk (Segment.front.inj he)) ‹Bytes›
        refine ⟨hwritten.rear, ?_⟩
        simp only [logMove, Function.update_of_ne (Ne.symm hk)]
        exact hwritten.front
    · exact h
  | writeRear =>
    rw [Action.exec]
    split
    · refine ⟨?_, ?_⟩
      · dsimp only
        rw [Function.update_self, readInt_writeToMemory ‹_›, hinv.put.rear (by simp [hp]), Nat.mod_add_mod]
      · dsimp only
        rw [Function.update_of_ne (show Segment.front 0 ≠ .rear from Segment.noConfusion)]
        exact h.front
    · exact h
  | _ => exact ⟨h.rear, h.front⟩

private theorem exec_history_prefix (ring : Ring) (p : Producer) (k : Nat) :
    ring.history k <+: ((q.put items p).exec .producer ring p).1.history k := by
  by_cases hp : p.point = .writeFront k
  · rw [CrossQueue.put]
    by_cases hr : p.raised
    · rw [if_pos hr]
      exact List.prefix_rfl
    rw [if_neg hr, hp, Action.exec]
    split
    · simp [logMove]
    · exact List.prefix_rfl
  · rw [put_history ring p hp]

theorem JobSystem.Identified.mono {w' : JobSystem τ} (h : w.Identified items)
    (hjobs : w'.jobs.jobs = w.jobs.jobs) (hhistory : w.ring.history 0 <+: w'.ring.history 0) :
    w'.Identified items := by
  intro job hjob
  obtain ⟨n, hn, hdata, htime⟩ := h job (hjobs ▸ hjob)
  obtain ⟨later, hlater⟩ := hhistory
  refine ⟨n, ?_, hdata, htime⟩
  rw [← hlater, List.getElem?_append_left (List.getElem?_eq_some_iff.mp hn).1, hn]

/-- While the scheduler holds the rear, a step of the producer changes nothing. -/
theorem Serving.put_blocked (h : Serving q items w) (hrear : w.jobs.point.holdsRear) :
    w.step q sent .producer = w := by
  rw [JobSystem.step, Computing.put_blocked h.inv.put Process.noConfusion (h.selecting.holdsRear hrear)]

/-- A step of the producer keeps the invariant of the scheduler and its processes. -/
theorem Serving.put_step (h : Serving q items w) (hread : ∀ n, items n = asRead (sent n)) (hkey : 0 < q.frontKeys) :
    Serving q items (w.step q sent .producer) := by
  by_cases hrear : w.jobs.point.holdsRear
  · rw [h.put_blocked hrear]
    exact h
  · have hquiet : ∀ k, w.producer.point = .writeFront k → ¬ (callers w.jobs.call k).point.knowsFront .infer :=
      System.Inv.quiet_infer (w := ⟨w.ring, w.producer, callers w.jobs.call⟩) h.inv .producer rfl
    have hholder : ∀ {l : Semaphore}, w.ring.holder l = some (.consumer 0) →
        (w.step q sent .producer).ring.holder l = some (.consumer 0) := fun hl =>
      Action.exec_holder (fun hf => put_frees h.inv.put hf) nofun hl
    refine ⟨h.inv.put_step hread hquiet, ?_, h.idle⟩
    exact {
      object := fun agent => (h.selecting.object agent).put_step h.inv hkey
      holdsRear := fun hr => hholder (h.selecting.holdsRear hr)
      holdsFront := fun hf => hholder (h.selecting.holdsFront hf)
      rear := fun hr => absurd hr.holdsRear hrear
      timed := fun ht => absurd ht.holdsRear hrear
      room := fun hr => absurd (by rw [show w.jobs.point = _ from hr]; trivial) hrear
      top := h.selecting.top }

/-- A step of the producer. -/
theorem JobInv.put_step (h : JobInv q items w) (hclean : ∀ n, SentinelFree (items n).1) (hkey : 0 < q.frontKeys)
    (hkept : w.kept q .producer) : JobInv q items (w.step q items .producer) := by
  have hhistory : w.ring.history 0 <+: (w.step q items .producer).ring.history 0 :=
    exec_history_prefix w.ring w.producer 0
  have hsame : ∀ agent, w.jobs.point = .get agent →
      (w.step q items .producer).ring.history 0 = w.ring.history 0 := by
    intro agent hget
    apply put_history w.ring w.producer
    intro hpoint
    simp [JobSystem.kept, hpoint, hget] at hkept
  refine ⟨h.toServing.put_step (fun n => (asRead_eq (hclean n)).symm) hkey, ?_, ?_, h.identified.mono rfl hhistory⟩
  · intro agent hget hpoint
    rw [hsame agent hget]
    exact h.startTime agent hget hpoint
  · intro hpoint
    have hget : ∃ agent, w.jobs.point = .get agent := by
      by_contra hnone
      rw [show (w.step q items .producer).jobs.call.point = _ from h.idle (not_exists.mp hnone)] at hpoint
      cases hpoint
    obtain ⟨agent, hget⟩ := hget
    rw [hsame agent hget]
    exact h.removed hpoint

end

end Soar.Computing
