import Soar.Computing.LockDiscipline
import Soar.Computing.RingContents
import Soar.Computing.ConsumerCorrectness

/-! Processes that share queues never wait for one another in a cycle. -/
namespace Soar.Computing
open Soar.Library Method

section
variable {Process Queue τ : Type} [DecidableEq Process] [DecidableEq Queue]

/-- A call of a process on a queue. -/
inductive Access (τ : Type)
  | put (data : Bytes) (timestamp : τ)
  | get (v : Version) (key : Option Nat)
  | gettime (key : Option Nat) (top : Nat)
  | isEmpty (key : Option Nat)
  | isFull
  | size (key : Option Nat)

/-- The method of a call, which says whether to call it again: `get` goes round until it has an item. -/
def Access.method (q : CrossQueue τ) (frontKey : Nat → Int) (self : Object) : Access τ → Method (Object × Bool)
  | .put data timestamp => do
    let self ← self.put q data timestamp
    .done (self, false)
  | .get v key => do
    let k ← q.addressKey key
    let (self, item) ← self.getRound q v k
    .done (self, item.isNone)
  | .gettime key top => do
    let (self, _) ← self.gettime q key top
    .done (self, false)
  | .isEmpty key => do
    let (self, _) ← self.isEmpty q key
    .done (self, false)
  | .isFull => do
    let (self, _) ← self.isFull q
    .done (self, false)
  | .size key => do
    let (self, _) ← self.size q frontKey key
    .done (self, false)

/-- Every method takes the semaphores in their order, whatever raises. -/
theorem Access.method_ordered (q : CrossQueue τ) (frontKey : Nat → Int) (self : Object) (access : Access τ) :
    Ordered (fun _ => True) ∅ ∅ (access.method q frontKey self) := by
  have hraises : ∀ held : Finset Semaphore, held.Nonempty → True := fun _ _ => trivial
  cases access with
  | put data timestamp => exact (self.put_ordered q hraises data timestamp).bind fun _ => rfl
  | get v key =>
    apply (addressKey_ordered q key fun _ _ => trivial).bind
    intro k
    exact (self.getRound_ordered q k hraises v fun _ => trivial).bind fun _ => rfl
  | gettime key top => exact (self.gettime_ordered q hraises key (fun _ _ => trivial) top).bind fun _ => rfl
  | isEmpty key => exact (self.isEmpty_ordered q hraises key).bind fun _ => rfl
  | isFull => exact (self.isFullLoop_ordered q trivial _).bind fun _ => rfl
  | size key => exact (self.size_ordered q trivial frontKey key).bind fun _ => rfl

/-- A call on one of several queues, each with its own semaphores and segments. A process has an object for
each queue. -/
def callOn (q : Queue → CrossQueue τ) (frontKey : Queue → Nat → Int) (c : Queue × Access τ) (objects : Queue → Object) :
    Program (Queue × Semaphore) (Queue × Segment) (Option Bytes) ((Queue → Object) × List (Queue × Access τ)) := do
  let (self, again) ←
    (c.2.method (q c.1) (frontKey c.1) (objects c.1)).rename (fun l => (c.1, l)) fun s => (c.1, s)
  .done (Function.update objects c.1 self, if again then [c] else [])

/-- Before the processes start. The segments may hold anything. -/
def startProcesses (calls : Process → List (Queue × Access τ)) (mem : Queue × Segment → Option Bytes) :
    Threads Process (Queue × Semaphore) (Queue × Segment) (Option Bytes) (Queue → Object) (Queue × Access τ) where
  shared := ⟨fun _ => 1, mem⟩
  thread p := ⟨fun _ => {}, calls p, none, ∅⟩

private def onQueue (i : Queue) : Semaphore ↪ Queue × Semaphore := ⟨Prod.mk i, Prod.mk_right_injective i⟩

private theorem callOn_ordered (q : Queue → CrossQueue τ) (frontKey : Queue → Nat → Int) (c : Queue × Access τ)
    (objects : Queue → Object) : (callOn q frontKey c objects).Ordered (fun l => l.2.rank) (fun _ => True) ∅ ∅ := by
  have hmethod := c.2.method_ordered (q c.1) (frontKey c.1) (objects c.1)
  have hrenamed : ((c.2.method (q c.1) (frontKey c.1) (objects c.1)).rename (onQueue c.1) (Prod.mk c.1)).Ordered
      (fun l => l.2.rank) (fun _ => True) (Finset.map (onQueue c.1) ∅) (Finset.map (onQueue c.1) ∅) :=
    hmethod.rename (fun _ => rfl) fun _ _ => trivial
  exact hrenamed.bind fun _ => rfl

omit [DecidableEq Process] in
private theorem startProcesses_ordered (calls : Process → List (Queue × Access τ))
    (mem : Queue × Segment → Option Bytes) :
    (startProcesses calls mem).Ordered fun l => l.2.rank where
  tally := {
    free := fun _ _ => rfl
    taken := fun _ _ hl => absurd hl (Finset.notMem_empty _)
    sole := fun _ _ _ hl _ => absurd hl (Finset.notMem_empty _) }
  thread _ := rfl

/-- Processes that make any calls on any queues, in any interleaving: wherever one waits for a semaphore,
one that does not wait holds a semaphore and takes its next step, no processes wait for one another in a
cycle, and between calls a process holds no semaphore. -/
theorem queues_deadlock_free (q : Queue → CrossQueue τ) (frontKey : Queue → Nat → Int)
    (calls : Process → List (Queue × Access τ)) (mem : Queue × Segment → Option Bytes) (schedule : List Process)
    (hraised : ∀ p, ¬ ((startProcesses calls mem).run (callOn q frontKey) schedule).Raised p) :
    let w := (startProcesses calls mem).run (callOn q frontKey) schedule
    (∀ p l, w.WaitsAt p l → ∃ p' l', l' ∈ (w.thread p').held ∧ (∀ l'', ¬ w.WaitsAt p' l'') ∧
      ∃ w', w.step (callOn q frontKey) p' = some w') ∧
    (∀ p, ¬ Relation.TransGen w.WaitsFor p p) ∧ ∀ p, (w.thread p).running = none → (w.thread p).held = ∅ := by
  intro w
  have hw : w.Ordered fun l => l.2.rank :=
    (startProcesses_ordered calls mem).run (callOn_ordered q frontKey) schedule
  have hbound : ∀ l : Queue × Semaphore, l.2.rank ≤ 1 := by
    rintro ⟨i, l⟩
    cases l with
    | rear => exact Nat.zero_le _
    | front k => exact le_rfl
  refine ⟨fun p l hwaits => ?_, hw.acyclic, fun p hidle => ?_⟩
  · obtain ⟨p', l', hl', hwaits'⟩ := hw.exists_mover hbound hwaits
    exact ⟨p', l', hl', hwaits', hw.exists_step hl' hwaits' (hraised p')⟩
  · have hself := hw.thread p
    rwa [Thread.Ordered, hidle] at hself

end

/-- A put that has taken the rear's semaphore, and an `isEmpty` that waits for it. -/
theorem queues_deadlock_free_putAndCheck :
    let calls : Bool → List (Unit × Access (Fin (2 ^ 53)))
      | true => [((), .put [0] 0)]
      | false => [((), .isEmpty none)]
    let w := (startProcesses calls fun s => (twoSlots 1).fresh.mem s.2).run (callOn (fun _ => twoSlots 1) fun _ _ => 0)
      [true, true, false]
    w.WaitsAt false ((), .rear) ∧ ∃ p' l', l' ∈ (w.thread p').held ∧ (∀ l'', ¬ w.WaitsAt p' l'') ∧
      ∃ w', w.step (callOn (fun _ => twoSlots 1) fun _ _ => 0) p' = some w' := by
  intro calls w
  have hwaits : w.WaitsAt false ((), .rear) := ⟨rfl, _, rfl⟩
  refine ⟨hwaits, (queues_deadlock_free (fun _ => twoSlots 1) (fun _ _ => 0) calls _
      [true, true, false] ?_).1 _ _ hwaits⟩
  intro p hraised
  have hrun : (w.thread p).running = some .raise := hraised
  cases p with
  | false => cases hrun
  | true => cases hrun

end Soar.Computing
