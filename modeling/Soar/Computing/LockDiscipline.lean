import Soar.Library.LockOrder
import Soar.Computing.Operations

/-! The order in which the methods take the semaphores: the rear's before a front's, and one front's at most.
`raises` says what a method may hold where it raises. -/
namespace Soar.Computing
open Soar.Library Method

def Semaphore.rank : Semaphore → Nat
  | .rear => 0
  | .front _ => 1

namespace Method

/-- The method, called with `held`, takes semaphores in their order and ends with `after`. -/
abbrev Ordered {α : Type} (raises : Finset Semaphore → Prop) (held after : Finset Semaphore) (p : Method α) : Prop :=
  Program.Ordered Semaphore.rank raises after held p

variable {raises : Finset Semaphore → Prop} {held : Finset Semaphore}

theorem acquire_ordered {l : Semaphore} (h : ∀ l' ∈ held, l'.rank < l.rank) :
    Ordered raises held (insert l held) (acquire l) :=
  ⟨h, rfl⟩

theorem release_ordered {l : Semaphore} (h : l ∈ held) : Ordered raises held (held.erase l) (release l) := ⟨h, rfl⟩

theorem attach_ordered (s : Segment) (hraises : raises held) : Ordered raises held held (attach s) := by
  intro content
  cases content with
  | none => exact hraises
  | some memory => rfl

theorem readFrom_ordered (s : Segment) (hraises : raises held) : Ordered raises held held (readFrom s) := by
  intro content
  cases content with
  | none => exact hraises
  | some memory => rfl

theorem writeTo_ordered (s : Segment) (text : Bytes) (hraises : raises held) :
    Ordered raises held held (writeTo s text) :=
  ⟨hraises, rfl⟩

theorem readIndex_ordered (cached : Nat) (s : Segment) : Ordered raises held held (readIndex cached s) := fun _ => rfl

end Method

section
variable {τ : Type} (q : CrossQueue τ) {raises : Finset Semaphore → Prop} {held : Finset Semaphore}

theorem lockFront_ordered (k : Nat) (hheld : ∀ l ∈ held, l = .rear) (hraises : ¬ k < q.frontKeys → raises held) :
    Ordered raises held (insert (.front k) held) (q.lockFront k) := by
  unfold CrossQueue.lockFront
  split_ifs with hk
  · apply acquire_ordered
    intro l hl
    rw [hheld l hl]
    exact Nat.one_pos
  · exact hraises hk

theorem openSlot_ordered (i : Nat) (hraises : raises held) : Ordered raises held held (q.openSlot i) := by
  unfold CrossQueue.openSlot
  split_ifs
  · exact (attach_ordered _ hraises).bind fun _ => attach_ordered _ hraises
  · exact hraises

theorem readTime_ordered (i : Nat) (hraises : raises held) : Ordered raises held held (q.readTime i) := by
  apply (readFrom_ordered _ hraises).bind
  intro text
  cases q.timestamp.float? text with
  | none => exact hraises
  | some t => rfl

theorem readSlot_ordered (i : Nat) (hraises : raises held) : Ordered raises held held (q.readSlot i) := by
  refine (openSlot_ordered q i hraises).bind fun _ => (readFrom_ordered _ hraises).bind fun data => ?_
  split_ifs
  · exact (readTime_ordered q i hraises).bind fun _ => rfl
  · exact hraises

/-- A call without a key, on a queue that has not just one, raises. -/
theorem addressKey_ordered (key : Option Nat) (hraises : key = none → q.frontKeys ≠ 1 → raises held) :
    Ordered raises held held (q.addressKey key) := by
  cases key with
  | some k => rfl
  | none =>
    unfold CrossQueue.addressKey
    split_ifs with hone
    · rfl
    · exact hraises rfl hone

namespace Object

variable (self : Object) (k : Nat)

private theorem releaseFront_ordered : Ordered raises (insert (.front k) {.rear}) {.rear} (release (.front k)) := by
  have hfront : Semaphore.front k ∉ ({.rear} : Finset Semaphore) := by simp
  have h : Ordered raises _ _ _ := release_ordered (Finset.mem_insert_self (Semaphore.front k) {.rear})
  rwa [Finset.erase_insert hfront] at h

private theorem releaseRear_ordered : Ordered raises (insert (.front k) {.rear}) {.front k} (release .rear) := by
  have hrear : Semaphore.rear ∉ ({.front k} : Finset Semaphore) := by simp
  have h : Ordered raises _ _ _ := release_ordered (Finset.mem_insert_self Semaphore.rear {.front k})
  rwa [Finset.erase_insert hrear, Finset.pair_comm] at h

private theorem releaseLast_ordered (l : Semaphore) : Ordered raises {l} ∅ (release l) := by
  have h : Ordered raises _ _ _ := release_ordered (Finset.mem_singleton_self l)
  rwa [Finset.erase_singleton] at h

private theorem acquireRear_ordered : Ordered raises ∅ {.rear} (acquire .rear) :=
  acquire_ordered fun _ hl => absurd hl (Finset.notMem_empty _)

private theorem lockFirst_ordered (hraises : ¬ k < q.frontKeys → raises ∅) :
    Ordered raises ∅ {.front k} (q.lockFront k) :=
  lockFront_ordered q k (fun _ hl => absurd hl (Finset.notMem_empty _)) hraises

theorem lastRear_ordered : Ordered raises held held (self.lastRear q) := by
  unfold lastRear
  split_ifs
  · exact readIndex_ordered _ _
  · rfl

section

variable (hraises : ∀ held : Finset Semaphore, held.Nonempty → raises held)
include hraises

private theorem lockSecond_ordered : Ordered raises {.rear} (insert (.front k) {.rear}) (q.lockFront k) :=
  lockFront_ordered q k (fun _ => Finset.mem_singleton.mp) fun _ => hraises _ (Finset.singleton_nonempty _)

theorem putFront_ordered : Ordered raises {.rear} {.rear} (self.putFront q k) := by
  refine (lockSecond_ordered q k hraises).bind fun _ => (readIndex_ordered _ _).bind fun front => ?_
  dsimp only
  split_ifs
  · apply (writeTo_ordered _ _ (hraises _ (Finset.insert_nonempty ..))).bind
    intro _
    exact (releaseFront_ordered k).bind fun _ => rfl
  · exact (releaseFront_ordered k).bind fun _ => rfl

theorem putFronts_ordered (keys : List Nat) : Ordered raises {.rear} {.rear} (putFronts q keys self) := by
  induction keys generalizing self with
  | nil => rfl
  | cons k keys ih => exact (putFront_ordered q self k hraises).bind fun self => ih self

/-- `put` takes its semaphores in their order, and gives them back. -/
theorem put_ordered (data : Bytes) (timestamp : τ) : Ordered raises ∅ ∅ (self.put q data timestamp) := by
  have hrear : raises {.rear} := hraises _ (Finset.singleton_nonempty _)
  refine acquireRear_ordered.bind fun _ => (readIndex_ordered _ _).bind fun rear => ?_
  refine (openSlot_ordered q rear hrear).bind fun _ => (writeTo_ordered _ _ hrear).bind fun _ => ?_
  refine (writeTo_ordered _ _ hrear).bind fun _ => (putFronts_ordered q _ hraises _).bind fun self => ?_
  refine (lastRear_ordered q self).bind fun rear => (writeTo_ordered _ _ hrear).bind fun _ => ?_
  exact (releaseLast_ordered .rear).bind fun _ => rfl

/-- On an early return the rear's semaphore is given back before the front's. -/
theorem isEmptyLoop_ordered (keys : List Nat) : Ordered raises {.rear} ∅ (isEmptyLoop q keys self) := by
  induction keys generalizing self with
  | nil => exact (releaseLast_ordered .rear).bind fun _ => rfl
  | cons k keys ih =>
    refine (lockSecond_ordered q k hraises).bind fun _ => (readIndex_ordered _ _).bind fun front => ?_
    apply (readIndex_ordered _ _).bind
    intro rear
    dsimp only
    split_ifs
    · exact (releaseRear_ordered k).bind fun _ => (releaseLast_ordered (.front k)).bind fun _ => rfl
    · exact (releaseFront_ordered k).bind fun _ => ih _

theorem isEmpty_ordered (key : Option Nat) : Ordered raises ∅ ∅ (self.isEmpty q key) :=
  acquireRear_ordered.bind fun _ => isEmptyLoop_ordered q self hraises _

theorem advance_ordered : Ordered raises {.front k} ∅ (self.advance q k) := by
  apply (writeTo_ordered _ _ (hraises _ (Finset.singleton_nonempty _))).bind
  intro _
  exact (releaseLast_ordered (.front k)).bind fun _ => rfl

/-- `CrossQueue.get` reads the slot before it takes the front's semaphore. -/
theorem remove_ordered (v : Version) (hcross : v = .cross → raises ∅) (hkey : ¬ k < q.frontKeys → raises ∅) :
    Ordered raises ∅ ∅ (self.remove q v k) := by
  cases v with
  | cross =>
    refine (readSlot_ordered q _ (hcross rfl)).bind fun item => (lockFirst_ordered q k hkey).bind fun _ => ?_
    exact (readIndex_ordered _ _).bind fun front => (advance_ordered q _ k hraises).bind fun _ => rfl
  | infer =>
    refine (lockFirst_ordered q k hkey).bind fun _ => (readIndex_ordered _ _).bind fun front => ?_
    apply (readSlot_ordered q _ (hraises _ (Finset.singleton_nonempty _))).bind
    intro item
    exact (advance_ordered q _ k hraises).bind fun _ => rfl

/-- An unknown key raises in the check, with the rear's semaphore held. -/
theorem getRound_ordered (v : Version) (hcross : v = .cross → raises ∅) : Ordered raises ∅ ∅ (self.getRound q v k) := by
  by_cases hk : k < q.frontKeys
  · apply (isEmpty_ordered q self hraises _).bind
    intro r
    obtain ⟨self, empty⟩ := r
    dsimp only
    split_ifs
    · rfl
    · exact (remove_ordered q self k hraises v hcross (absurd hk)).bind fun _ => rfl
  · have hround : self.getRound q v k = Program.acquire .rear .raise := by
      unfold getRound isEmpty CrossQueue.addressKeys
      rw [isEmptyLoop, CrossQueue.lockFront, if_neg hk]
      rfl
    rw [hround]
    exact ⟨fun _ hl => absurd hl (Finset.notMem_empty _), hraises _ (Finset.insert_nonempty ..)⟩

theorem getRounds_ordered (v : Version) (hcross : v = .cross → raises ∅) (rounds : Nat) :
    Ordered raises ∅ ∅ (getRounds q v k rounds self) := by
  induction rounds generalizing self with
  | zero => rfl
  | succ rounds ih =>
    apply (getRound_ordered q self k hraises v hcross).bind
    intro r
    obtain ⟨self, item⟩ := r
    cases item with
    | none => exact ih self
    | some x => rfl

/-- So does `get`. -/
theorem get_ordered (v : Version) (hcross : v = .cross → raises ∅) (key : Option Nat)
    (hkey : key = none → q.frontKeys ≠ 1 → raises ∅) (rounds : Nat) : Ordered raises ∅ ∅ (self.get q v key rounds) :=
  (addressKey_ordered q key hkey).bind fun k => getRounds_ordered q self k hraises v hcross rounds

theorem gettimeLoop_ordered (hheld : held.Nonempty) (rear top front : Nat) :
    Ordered raises held held (gettimeLoop q rear top front) := by
  induction top generalizing front with
  | zero => rfl
  | succ top ih =>
    unfold gettimeLoop
    split_ifs
    · rfl
    · refine (attach_ordered _ (hraises _ hheld)).bind fun _ => (readTime_ordered q _
          (hraises _ hheld)).bind fun t => ?_
      exact (ih _).bind fun _ => rfl
    · exact hraises _ hheld

/-- So does `gettime`. -/
theorem gettime_ordered (key : Option Nat) (hkey : key = none → q.frontKeys ≠ 1 → raises ∅) (top : Nat) :
    Ordered raises ∅ ∅ (self.gettime q key top) := by
  refine (addressKey_ordered q key hkey).bind fun k => acquireRear_ordered.bind fun _ => ?_
  refine (readIndex_ordered _ _).bind fun rear => (lockSecond_ordered q k hraises).bind fun _ => ?_
  apply (readIndex_ordered _ _).bind
  intro front
  apply (gettimeLoop_ordered q hraises (Finset.insert_nonempty ..) rear top front).bind
  intro times
  exact (releaseFront_ordered k).bind fun _ => (releaseLast_ordered .rear).bind fun _ => rfl

end

theorem readIndices_ordered (hkey : raises ∅) : Ordered raises ∅ ∅ (self.readIndices q k) := by
  refine (lockFirst_ordered q k fun _ => hkey).bind fun _ => (readIndex_ordered _ _).bind fun front => ?_
  refine (releaseLast_ordered (.front k)).bind fun _ => acquireRear_ordered.bind fun _ => ?_
  exact (readIndex_ordered _ _).bind fun rear => (releaseLast_ordered .rear).bind fun _ => rfl

theorem isFullLoop_ordered (hkey : raises ∅) (keys : List Nat) : Ordered raises ∅ ∅ (isFullLoop q keys self) := by
  induction keys generalizing self with
  | nil => rfl
  | cons k keys ih =>
    apply (readIndices_ordered q self k hkey).bind
    intro self
    split_ifs
    · rfl
    · exact ih self

theorem sizeLoop_ordered (hkey : raises ∅) (keys : List Nat) : Ordered raises ∅ ∅ (sizeLoop q keys self) := by
  induction keys generalizing self with
  | nil => rfl
  | cons k keys ih => exact (readIndices_ordered q self k hkey).bind fun self => ih self

/-- So does `size`. -/
theorem size_ordered (hkey : raises ∅) (frontKey : Nat → Int) (key : Option Nat) :
    Ordered raises ∅ ∅ (self.size q frontKey key) :=
  (sizeLoop_ordered q self hkey _).bind fun _ => rfl

end Object

end

end Soar.Computing
