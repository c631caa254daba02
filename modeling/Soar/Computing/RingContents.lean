import Soar.Computing.Operations

/-! What the segments of a queue hold between calls: the puts so far, and the position of each front. -/
namespace Soar.Computing
open Soar.Library

section
variable {τ : Type}

/-- A slot holds the data and the timestamp `x`. -/
structure SlotHolds (q : CrossQueue τ) (mem : Segment → Option Bytes) (i : Nat) (x : Bytes × τ) : Prop where
  data : ∃ memory, mem (.data i) = some memory ∧ readFromMemory memory = x.1
  time : ∃ memory, mem (.time i) = some memory ∧ q.timestamp.float? (readFromMemory memory) = some x.2

/-- All segments exist, each of the size that it was created with. -/
structure Sized (q : CrossQueue τ) (mem : Segment → Option Bytes) : Prop where
  rear : ∃ memory, mem .rear = some memory ∧ memory.length = 32
  front : ∀ k < q.frontKeys, ∃ memory, mem (.front k) = some memory ∧ memory.length = 32
  data : ∀ i < q.maxLength, ∃ memory, mem (.data i) = some memory ∧ memory.length = q.maxDataSize
  time : ∀ i < q.maxLength, ∃ memory, mem (.time i) = some memory ∧ memory.length = 32

/-- The segments after `puts`, with front `k` at position `front k`, as any object of `objects` reads
them. A position's slot is its remainder modulo the length of the ring. -/
structure Stored (q : CrossQueue τ) (objects : Set Object) (mem : Segment → Option Bytes) (puts : List (Bytes × τ))
    (front : Nat → Nat) : Prop where
  sized : Sized q mem
  rear : ∀ o ∈ objects, (mem .rear).elim o.rear (readInt o.rear) = puts.length % q.maxLength
  fronts : ∀ o ∈ objects, ∀ k < q.frontKeys,
    (mem (.front k)).elim (o.fronts k) (readInt (o.fronts k)) = front k % q.maxLength
  le : ∀ k < q.frontKeys, front k ≤ puts.length
  room : ∀ k < q.frontKeys, puts.length + 1 ≤ front k + q.maxLength
  slot : ∀ a (ha : a < puts.length), puts.length + 1 ≤ a + q.maxLength → SlotHolds q mem (a % q.maxLength) puts[a]

/-- A fresh queue. Semaphores start at 1. -/
def CrossQueue.fresh (q : CrossQueue τ) : Shared Semaphore Segment (Option Bytes) where
  sem _ := 1
  mem
    | .data i => if i < q.maxLength then some (List.replicate q.maxDataSize q.blank) else none
    | .time i => if i < q.maxLength then some (List.replicate 32 q.blank) else none
    | .rear => some (List.replicate 32 q.blank)
    | .front k => if k < q.frontKeys then some (List.replicate 32 q.blank) else none

/-- The decimal texts of the indices and the texts of the timestamps fit into their segments. -/
def CrossQueue.TextsFit (q : CrossQueue τ) : Prop :=
  (∀ i < q.maxLength, (str i).length + 4 ≤ 32) ∧ ∀ t, (q.timestamp.str t).length + 4 ≤ 32

/-- A number of so many digits is written with as many bytes. -/
theorem length_str_le {n digits : Nat} (hdigits : 0 < digits) (h : n < 10 ^ digits) : (str n).length ≤ digits := by
  rw [str, List.length_map]
  exact (Nat.length_toDigits_le_iff (by decide) hdigits).mpr h

theorem length_writeToMemory {text memory memory' : Bytes} (h : writeToMemory text memory = some memory') :
    memory'.length = memory.length := by
  obtain ⟨hle, h⟩ := Option.ite_none_right_eq_some.mp h
  obtain rfl := Option.some.inj h
  rw [List.length_append, List.length_drop]
  omega

theorem writeToMemory_eq_none {text memory : Bytes} (h : writeToMemory text memory = none) :
    memory.length < text.length + 4 := by
  unfold writeToMemory at h
  split_ifs at h with hle
  simpa [nullChar] using hle

variable {q : CrossQueue τ} {objects : Set Object} {mem : Segment → Option Bytes} {puts : List (Bytes × τ)}
  {front : Nat → Nat}

/-- The new queue stores nothing. -/
theorem CrossQueue.fresh_stored (q : CrossQueue τ) : Stored q {{}} q.fresh.mem [] fun _ => 0 where
  sized := {
    rear := ⟨_, rfl, List.length_replicate ..⟩
    front := fun k hk => ⟨_, if_pos hk, List.length_replicate ..⟩
    data := fun i hi => ⟨_, if_pos hi, List.length_replicate ..⟩
    time := fun i hi => ⟨_, if_pos hi, List.length_replicate ..⟩ }
  rear := by
    rintro o rfl
    exact (readInt_replicate q.isDigit_blank 32 0).trans (Nat.zero_mod _).symm
  fronts := by
    rintro o rfl k hk
    rw [show q.fresh.mem (.front k) = some (List.replicate 32 q.blank) from if_pos hk]
    exact (readInt_replicate q.isDigit_blank 32 0).trans (Nat.zero_mod _).symm
  le _ _ := Nat.zero_le _
  room k hk := by
    have htwo := q.two_le_maxLength
    simp only [List.length_nil]
    omega
  slot a ha := absurd ha (Nat.not_lt_zero a)

theorem Stored.mono {objects' : Set Object} (h : Stored q objects mem puts front) (hsub : objects' ⊆ objects) :
    Stored q objects' mem puts front :=
  { h with
    rear := fun o ho => h.rear o (hsub ho)
    fronts := fun o ho => h.fronts o (hsub ho) }

private theorem elim_elim (cached : Nat) (content : Option Bytes) :
    content.elim (content.elim cached (readInt cached)) (readInt (content.elim cached (readInt cached))) =
      content.elim cached (readInt cached) := by
  cases content with
  | none => rfl
  | some memory => exact readInt_readInt cached memory

/-- An object that has read an index caches what it has read. -/
theorem Stored.cacheRear {self : Object} (h : Stored q objects mem puts front) (hself : self ∈ objects) :
    Stored q (insert { self with rear := puts.length % q.maxLength } objects) mem puts front :=
  { h with
    rear := by
      rintro o (rfl | ho)
      · have hread := elim_elim self.rear (mem .rear)
        rwa [h.rear self hself] at hread
      · exact h.rear o ho
    fronts := by
      rintro o (rfl | ho)
      · exact h.fronts self hself
      · exact h.fronts o ho }

theorem Stored.cacheFront {self : Object} {k : Nat} (h : Stored q objects mem puts front) (hself : self ∈ objects)
    (hk : k < q.frontKeys) : Stored q (insert (self.setFront k (front k % q.maxLength)) objects) mem puts front :=
  { h with
    rear := by
      rintro o (rfl | ho)
      · exact h.rear self hself
      · exact h.rear o ho
    fronts := by
      rintro o (rfl | ho) i hi
      · by_cases hik : i = k
        · subst hik
          have hread := elim_elim (self.fronts i) (mem (.front i))
          rw [h.fronts self hself i hi] at hread
          simpa [Object.setFront] using hread
        · simpa [Object.setFront, Function.update_of_ne hik] using h.fronts self hself i hi
      · exact h.fronts o ho i hi }

theorem Stored.cacheIndices {self : Object} {k : Nat} (h : Stored q objects mem puts front) (hself : self ∈ objects)
    (hk : k < q.frontKeys) : Stored q
      (insert { self.setFront k (front k % q.maxLength) with rear := puts.length % q.maxLength } objects)
      mem puts front := by
  refine ((h.cacheFront hself hk).cacheRear (Set.mem_insert ..)).mono (Set.insert_subset_insert ?_)
  exact Set.subset_insert ..

private theorem Sized.write {s : Segment} {content memory text : Bytes} (h : Sized q mem) (hmem : mem s = some memory)
    (hw : writeToMemory content memory = some text) : Sized q (Function.update mem s (some text)) := by
  have hsize : ∀ {s' : Segment} {n : Nat}, (∃ memory, mem s' = some memory ∧ memory.length = n) →
      ∃ memory, Function.update mem s (some text) s' = some memory ∧ memory.length = n := by
    rintro s' n ⟨memory', hmem', hn⟩
    by_cases heq : s' = s
    · subst heq
      rw [hmem] at hmem'
      exact ⟨text, Function.update_self .., by rw [length_writeToMemory hw, Option.some.inj hmem', hn]⟩
    · exact ⟨memory', by rw [Function.update_of_ne heq, hmem'], hn⟩
  exact ⟨hsize h.rear, fun k hk => hsize (h.front k hk), fun i hi => hsize (h.data i hi),
    fun i hi => hsize (h.time i hi)⟩

private theorem SlotHolds.update {s : Segment} {text : Bytes} {a n : Nat} {x : Bytes × τ}
    (h : SlotHolds q mem (a % q.maxLength) x) (ha : a < n) (hroom : n + 1 ≤ a + q.maxLength)
    (hs : s = .data (n % q.maxLength) ∨ s = .time (n % q.maxLength)) :
    SlotHolds q (Function.update mem s (some text)) (a % q.maxLength) x := by
  have hslot : a % q.maxLength ≠ n % q.maxLength := mod_ne_of_window ha (by omega)
  rcases hs with rfl | rfl
  · refine ⟨?_, ?_⟩
    · rw [Function.update_of_ne fun he => hslot (Segment.data.inj he)]
      exact h.data
    · rw [Function.update_of_ne Segment.noConfusion]
      exact h.time
  · refine ⟨?_, ?_⟩
    · rw [Function.update_of_ne Segment.noConfusion]
      exact h.data
    · rw [Function.update_of_ne fun he => hslot (Segment.time.inj he)]
      exact h.time

/-- The indices are not in the slots. -/
theorem SlotHolds.updateIndex {s : Segment} {text : Bytes} {i : Nat} {x : Bytes × τ} (h : SlotHolds q mem i x)
    (hdata : ∀ j, s ≠ .data j) (htime : ∀ j, s ≠ .time j) : SlotHolds q (Function.update mem s (some text)) i x := by
  refine ⟨?_, ?_⟩
  · rw [Function.update_of_ne (hdata i).symm]
    exact h.data
  · rw [Function.update_of_ne (htime i).symm]
    exact h.time

/-- Writing into the slot at the rear changes nothing that is in the queue. -/
theorem Stored.writeSlot {s : Segment} {content memory text : Bytes} (h : Stored q objects mem puts front)
    (hs : s = .data (puts.length % q.maxLength) ∨ s = .time (puts.length % q.maxLength))
    (hmem : mem s = some memory) (hw : writeToMemory content memory = some text) :
    Stored q objects (Function.update mem s (some text)) puts front := by
  have hrear : s ≠ .rear := by
    rcases hs with rfl | rfl <;> exact nofun
  have hfront : ∀ k, s ≠ .front k := by
    rcases hs with rfl | rfl <;> exact nofun
  exact {
    sized := h.sized.write hmem hw
    rear := fun o ho => by
      rw [Function.update_of_ne hrear.symm]
      exact h.rear o ho
    fronts := fun o ho k hk => by
      rw [Function.update_of_ne (hfront k).symm]
      exact h.fronts o ho k hk
    le := h.le
    room := h.room
    slot := fun a ha hroom => (h.slot a ha hroom).update ha hroom hs }

/-- Moving front `k` on by one. -/
theorem Stored.moveFront {k : Nat} {memory text : Bytes} (h : Stored q objects mem puts front) (hk : k < q.frontKeys)
    (hle : front k + 1 ≤ puts.length) (hmem : mem (.front k) = some memory)
    (hw : writeToMemory (str ((front k % q.maxLength + 1) % q.maxLength)) memory = some text) :
    Stored q objects (Function.update mem (.front k) (some text)) puts (Function.update front k (front k + 1)) := by
  exact {
    sized := h.sized.write hmem hw
    rear := fun o ho => by
      rw [Function.update_of_ne Segment.noConfusion]
      exact h.rear o ho
    fronts := fun o ho i hi => by
      by_cases hik : i = k
      · subst hik
        rw [Function.update_self, Function.update_self, Option.elim, readInt_writeToMemory hw, Nat.mod_add_mod]
      · rw [Function.update_of_ne fun he => hik (Segment.front.inj he), Function.update_of_ne hik]
        exact h.fronts o ho i hi
    le := fun i hi => by
      rw [Function.update_apply]
      split_ifs
      · exact hle
      · exact h.le i hi
    room := fun i hi => by
      have hroom := h.room i hi
      rw [Function.update_apply]
      split_ifs with hik
      · subst hik
        omega
      · exact hroom
    slot := fun a ha hroom => (h.slot a ha hroom).updateIndex nofun nofun }

/-- Moving the rear on by one, past a slot that holds `x`. -/
theorem Stored.moveRear {memory text : Bytes} {x : Bytes × τ} (h : Stored q objects mem puts front)
    (hroom : ∀ k < q.frontKeys, puts.length + 2 ≤ front k + q.maxLength) (hmem : mem .rear = some memory)
    (hslot : SlotHolds q mem (puts.length % q.maxLength) x)
    (hw : writeToMemory (str ((puts.length % q.maxLength + 1) % q.maxLength)) memory = some text) :
    Stored q objects (Function.update mem .rear (some text)) (puts ++ [x]) front := by
  have hlength : (puts ++ [x]).length = puts.length + 1 := by simp
  exact {
    sized := h.sized.write hmem hw
    rear := fun o ho => by
      rw [Function.update_self, Option.elim, readInt_writeToMemory hw, Nat.mod_add_mod, hlength]
    fronts := fun o ho k hk => by
      rw [Function.update_of_ne Segment.noConfusion]
      exact h.fronts o ho k hk
    le := fun k hk => by
      rw [hlength]
      exact (h.le k hk).trans (Nat.le_succ _)
    room := fun k hk => by
      rw [hlength]
      exact hroom k hk
    slot := fun a ha hwindow => by
      rw [hlength] at ha hwindow
      rcases (Nat.lt_succ_iff.mp ha).lt_or_eq with hlt | rfl
      · rw [List.getElem_append_left hlt]
        exact (h.slot a hlt (by omega)).updateIndex nofun nofun
      · rw [List.getElem_append_right le_rfl]
        have hkept : SlotHolds q (Function.update mem .rear (some text)) (puts.length % q.maxLength) x :=
          hslot.updateIndex nofun nofun
        simpa using hkept }

end

end Soar.Computing
