import Soar.Computing.CrossQueue

/-! The invariant of the ring. Positions count puts from the start: the rear is at `count`, the
front of key `k` at the number of its moves, and a position's slot is its remainder modulo the
length of the ring. A put has filled its slot before it looks at the fronts, so a front may pass
the rear, but only the front of a key that the current put has already checked. -/
namespace Soar.Computing
open Soar.Library

/-! What a program point tells. -/

namespace PutPoint

@[simp] def holdsRear : PutPoint → Prop
  | acquireRear => False
  | _ => True

@[simp] def holdsFront (k : Nat) : PutPoint → Prop
  | readFront j | writeFront j | releaseFront j => j = k
  | _ => False

/-- The loop is at key `k`. -/
@[simp] def atKey (k : Nat) : PutPoint → Prop
  | acquireFront j | readFront j | writeFront j | releaseFront j => j = k
  | _ => False

/-- The current put is done with key `k`, up to its release. -/
@[simp] def checked (k : Nat) : PutPoint → Prop
  | acquireFront j | readFront j | writeFront j => k < j
  | releaseFront j => k ≤ j
  | rereadRear | writeRear => True
  | _ => False

@[simp] def knowsRear : PutPoint → Prop
  | acquireRear | readRear | releaseRear => False
  | _ => True

@[simp] def hasData : PutPoint → Prop
  | acquireRear | readRear | writeData | releaseRear => False
  | _ => True

@[simp] def hasTime : PutPoint → Prop
  | acquireRear | readRear | writeData | writeTime | releaseRear => False
  | _ => True

theorem checked.hasTime {k : Nat} {p : PutPoint} (h : p.checked k) : p.hasTime := by
  cases p <;> first | exact trivial | exact h

theorem hasTime.hasData {p : PutPoint} (h : p.hasTime) : p.hasData := by
  cases p <;> first | exact trivial | exact h

theorem hasTime.holdsRear {p : PutPoint} (h : p.hasTime) : p.holdsRear := by
  cases p <;> first | exact trivial | exact h

end PutPoint

namespace GetPoint

@[simp] def holdsRear : GetPoint → Prop
  | acquireFront | readFront | readRear | emptyReleaseRear | releaseFront | releaseRear => True
  | _ => False

@[simp] def holdsFront (v : Version) : GetPoint → Prop
  | readFront | readRear | emptyReleaseRear | emptyReleaseFront | releaseFront => True
  | rereadFront | writeFront | unlockFront => True
  | readData | readTime => v = .infer
  | _ => False

/-- The ring was not empty, and its front not moved since by this consumer. -/
@[simp] def past : GetPoint → Prop
  | releaseFront | releaseRear | readData | readTime | lockFront | rereadFront | writeFront => True
  | _ => False

/-- The cached front is the one of the ring. -/
@[simp] def knowsFront (v : Version) : GetPoint → Prop
  | readRear | releaseFront | releaseRear | readData | readTime | writeFront => True
  | lockFront | rereadFront => v = .cross
  | _ => False

@[simp] def hasData (v : Version) : GetPoint → Prop
  | readTime | writeFront => True
  | lockFront | rereadFront => v = .cross
  | _ => False

@[simp] def hasTime (v : Version) : GetPoint → Prop
  | writeFront => True
  | lockFront | rereadFront => v = .cross
  | _ => False

theorem hasData.knowsFront {v : Version} {c : GetPoint} (h : c.hasData v) : c.knowsFront v := by
  cases c <;> first | exact trivial | exact h

theorem hasTime.knowsFront {v : Version} {c : GetPoint} (h : c.hasTime v) : c.knowsFront v := by
  cases c <;> first | exact trivial | exact h

end GetPoint

section
variable {τ : Type}

/-- The slot of position `a` holds put `a`. -/
structure Holds (q : CrossQueue τ) (items : Nat → Bytes × τ) (mem : Segment → Bytes) (a : Nat) : Prop where
  data : readFromMemory (mem (.data (a % q.maxLength))) = (items a).1
  time : q.timestamp.float? (readFromMemory (mem (.time (a % q.maxLength)))) = some (items a).2

/-- The producer, its semaphores and the slots. -/
structure Put (q : CrossQueue τ) (items : Nat → Bytes × τ) (ring : Ring) (p : Producer) : Prop where
  rear_text : readInt p.rear (ring.mem .rear) = p.count % q.maxLength
  rear : p.point.knowsRear → p.rear = p.count % q.maxLength
  holdsRear : p.point.holdsRear → ring.holder .rear = some .producer
  holdsFront : ∀ k, p.point.holdsFront k → ring.holder (.front k) = some .producer
  key : ∀ k, p.point.atKey k → k < q.frontKeys
  slot : ∀ a < p.count, p.count + 1 ≤ a + q.maxLength → Holds q items ring.mem a
  data : p.point.hasData → readFromMemory (ring.mem (.data (p.count % q.maxLength))) = (items p.count).1
  time : p.point.hasTime →
    q.timestamp.float? (readFromMemory (ring.mem (.time (p.count % q.maxLength)))) = some (items p.count).2

/-- The positions at which a consumer itself moved its front. -/
def taken (moves : List Move) : List Nat := (List.range moves.length).filter (moves[·]? = some .taken)

/-- What consumer `k` has returned, with what it returns at its last release. -/
def Consumer.delivered (q : CrossQueue τ) (c : Consumer τ) : List (Bytes × τ) :=
  if c.point = .unlockFront then (q.finish c).returned else c.returned

/-- Consumer `k` and its front, which is at position `(ring.history k).length`. -/
structure Key (q : CrossQueue τ) (v : Version) (items : Nat → Bytes × τ) (ring : Ring) (p : Producer)
    (c : Consumer τ) (k : Nat) : Prop where
  rear_text : readInt c.rear (ring.mem .rear) = p.count % q.maxLength
  front_text : readInt c.front (ring.mem (.front k)) = (ring.history k).length % q.maxLength
  fronts_text : readInt (p.fronts k) (ring.mem (.front k)) = (ring.history k).length % q.maxLength
  room : p.count + 1 ≤ (ring.history k).length + q.maxLength
  room_checked : p.point.checked k → p.count + 2 ≤ (ring.history k).length + q.maxLength
  full : p.point = .writeFront k → p.fronts k = (ring.history k).length % q.maxLength ∧
    p.count + 1 = (ring.history k).length + q.maxLength
  le : (ring.history k).length ≤ p.count + 1
  le_unchecked : ¬ p.point.checked k → (ring.history k).length ≤ p.count
  past : c.point.past → (ring.history k).length ≤ p.count
  past_unchecked : c.point.past → ¬ p.point.checked k → (ring.history k).length < p.count
  front : c.point.knowsFront v → c.front = (ring.history k).length % q.maxLength
  data : c.point.hasData v → c.data = (items (ring.history k).length).1
  time : c.point.hasTime v → c.timestamp = some (items (ring.history k).length).2
  holdsRear : c.point.holdsRear → ring.holder .rear = some (.consumer k)
  holdsFront : c.point.holdsFront v → ring.holder (.front k) = some (.consumer k)
  delivered : c.delivered q = ((taken (ring.history k)).filter (fun n => q.Shaped (items n).1)).map items
  overflow : ∀ n r, (ring.history k)[n]? = some (.overflow r) → r = n + (q.maxLength - 1) ∧ r < p.begun

structure Inv (q : CrossQueue τ) (v : Version) (items : Nat → Bytes × τ) (ring : Ring) (p : Producer)
    (cs : Nat → Consumer τ) : Prop where
  put : Put q items ring p
  key : ∀ k < q.frontKeys, Key q v items ring p (cs k) k

variable {q : CrossQueue τ} {v : Version} {items : Nat → Bytes × τ} {ring ring' : Ring} {p p' : Producer}
  {c : Consumer τ} {k : Nat}

/-- Consumer `k` cannot tell the two rings apart, its semaphores' other holders aside. -/
structure SameRing (ring ring' : Ring) (k : Nat) : Prop where
  rear : ring'.mem .rear = ring.mem .rear
  front : ring'.mem (.front k) = ring.mem (.front k)
  history : ring'.history k = ring.history k
  holdsRear : ring.holder .rear = some (.consumer k) → ring'.holder .rear = some (.consumer k)
  holdsFront : ring.holder (.front k) = some (.consumer k) → ring'.holder (.front k) = some (.consumer k)

/-- The producer has not gone past key `k`. -/
structure SameKey (p p' : Producer) (k : Nat) : Prop where
  count : p'.count = p.count
  begun : p.begun ≤ p'.begun
  fronts : p'.fronts k = p.fronts k
  checked : p'.point.checked k ↔ p.point.checked k
  full : p'.point = .writeFront k → p.point = .writeFront k

theorem SameRing.refl (ring : Ring) (k : Nat) : SameRing ring ring k := ⟨rfl, rfl, rfl, id, id⟩

theorem SameKey.refl (p : Producer) (k : Nat) : SameKey p p k := ⟨rfl, le_rfl, rfl, Iff.rfl, id⟩

theorem SameRing.acquired {l : Semaphore} (hl : ring.holder l = none) (t : Option Process) (k : Nat) :
    SameRing ring { ring with holder := Function.update ring.holder l t } k :=
  ⟨rfl, rfl, rfl, fun h => update_acquired hl h t, fun h => update_acquired hl h t⟩

theorem SameRing.released {l : Semaphore} {t : Process} (hl : ring.holder l = some t) {k : Nat} (ht : t ≠ .consumer k)
    (x : Option Process) : SameRing ring { ring with holder := Function.update ring.holder l x } k :=
  ⟨rfl, rfl, rfl, fun h => update_released hl ht h x, fun h => update_released hl ht h x⟩

theorem SameRing.written {s : Segment} (hr : s ≠ .rear) {k : Nat} (hf : s ≠ .front k) (text : Bytes) :
    SameRing ring { ring with mem := Function.update ring.mem s text } k :=
  ⟨Function.update_of_ne hr.symm .., Function.update_of_ne hf.symm .., rfl, id, id⟩

/-- The frame for steps that change nothing of a key. -/
theorem Key.congr (h : Key q v items ring p c k) (hr : SameRing ring ring' k) (hp : SameKey p p' k) :
    Key q v items ring' p' c k where
  rear_text := by rw [hr.rear, hp.count]; exact h.rear_text
  front_text := by rw [hr.front, hr.history]; exact h.front_text
  fronts_text := by rw [hp.fronts, hr.front, hr.history]; exact h.fronts_text
  room := by rw [hp.count, hr.history]; exact h.room
  room_checked hc := by rw [hp.count, hr.history]; exact h.room_checked (hp.checked.mp hc)
  full hw := by rw [hp.count, hr.history, hp.fronts]; exact h.full (hp.full hw)
  le := by rw [hp.count, hr.history]; exact h.le
  le_unchecked hc := by rw [hp.count, hr.history]; exact h.le_unchecked (mt hp.checked.mpr hc)
  past hc := by rw [hp.count, hr.history]; exact h.past hc
  past_unchecked hc hn := by rw [hp.count, hr.history]; exact h.past_unchecked hc (mt hp.checked.mpr hn)
  front hc := by rw [hr.history]; exact h.front hc
  data hc := by rw [hr.history]; exact h.data hc
  time hc := by rw [hr.history]; exact h.time hc
  holdsRear hc := hr.holdsRear (h.holdsRear hc)
  holdsFront hc := hr.holdsFront (h.holdsFront hc)
  delivered := by rw [hr.history]; exact h.delivered
  overflow n r hn := by
    rw [hr.history] at hn
    obtain ⟨hn, hb⟩ := h.overflow n r hn
    exact ⟨hn, hb.trans_le hp.begun⟩

theorem taken_snoc (moves : List Move) (m : Move) :
    taken (moves ++ [m]) = taken moves ++ if m = .taken then [moves.length] else [] := by
  have hold : ∀ n ∈ List.range moves.length,
      decide ((moves ++ [m])[n]? = some .taken) = decide (moves[n]? = some .taken) := by
    intro n hn
    rw [List.getElem?_append_left (List.mem_range.mp hn)]
  rw [taken, List.length_append, List.length_singleton, List.range_succ, List.filter_append,
    List.filter_congr hold, taken]
  by_cases hm : m = .taken
  · simp [hm]
  · simp [hm]

theorem getElem?_snoc {moves : List Move} {m m' : Move} {n : Nat} (h : (moves ++ [m])[n]? = some m') :
    moves[n]? = some m' ∨ n = moves.length ∧ m' = m := by
  rw [List.getElem?_append] at h
  split_ifs at h with hn
  · exact .inl h
  · obtain ⟨hlt, hm⟩ := List.getElem?_eq_some_iff.mp h
    rw [List.length_singleton] at hlt
    exact .inr ⟨by omega, by simpa using hm.symm⟩

/-- A consumer past its check finds the put at its front in its slot. -/
theorem Key.holds (hk : Key q v items ring p c k) (hp : Put q items ring p) (hpast : c.point.past) :
    Holds q items ring.mem (ring.history k).length := by
  rcases (hk.past hpast).lt_or_eq with hlt | heq
  · exact hp.slot _ hlt hk.room
  · have hc : p.point.checked k := by
      by_contra hc
      exact absurd (hk.past_unchecked hpast hc) (by omega)
    rw [heq]
    exact ⟨hp.data hc.hasTime.hasData, hp.time hc.hasTime⟩

end

end Soar.Computing
