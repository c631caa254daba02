import Soar.Computing.LockDiscipline
import Soar.Computing.RingContents
import Soar.Computing.ConsumerCorrectness

/-! What a call that raises leaves behind: nothing releases the semaphores that it has taken. -/
namespace Soar.Computing
open Soar.Library Method

section
variable {τ : Type}

/-- A call of `put` or of `InferQueue.get`. -/
inductive Attempt (τ : Type)
  | put (data : Bytes) (timestamp : τ)
  | get (key : Option Nat)

def Attempt.method (q : CrossQueue τ) (rounds : Nat) (self : Object) : Attempt τ → Method Object
  | .put data timestamp => self.put q data timestamp
  | .get key => do
    let (self, _) ← self.get q .infer key rounds
    .done self

/-- Every semaphore has the value that it had, and the stored indices are unchanged. -/
structure Restored (st st' : Shared Semaphore Segment (Option Bytes)) : Prop where
  sem : st'.sem = st.sem
  rear : st'.mem .rear = st.mem .rear
  front : ∀ k, st'.mem (.front k) = st.mem (.front k)

/-- A call without a key, for a queue that has not just one. -/
def Attempt.Keyless (q : CrossQueue τ) : Attempt τ → Prop
  | .put .. => False
  | .get key => key = none ∧ q.frontKeys ≠ 1

variable {q : CrossQueue τ} {attempt : Attempt τ}

/-- Every other call has taken a semaphore before it can raise. -/
theorem Attempt.method_ordered (self : Object) (rounds : Nat) (h : ¬ attempt.Keyless q) :
    Ordered Finset.Nonempty ∅ ∅ (attempt.method q rounds self) := by
  have hraises : ∀ held : Finset Semaphore, held.Nonempty → held.Nonempty := fun _ => id
  cases attempt with
  | put data timestamp => exact self.put_ordered q hraises data timestamp
  | get key =>
    have hkey : key = none → q.frontKeys ≠ 1 → (∅ : Finset Semaphore).Nonempty :=
      fun hnone hone => absurd ⟨hnone, hone⟩ h
    exact (self.get_ordered q hraises .infer nofun key hkey rounds).bind fun _ => rfl

/-- A call that raises leaves all as it was if and only if it fails the assertion on its missing key. -/
theorem restored_iff_keyless (q : CrossQueue τ) (attempt : Attempt τ) (rounds : Nat) (self : Object)
    (st st' : Shared Semaphore Segment (Option Bytes))
    (hraised : (attempt.method q rounds self).run st = (.raised, st')) : Restored st st' ↔ attempt.Keyless q := by
  constructor
  · intro hrestored
    by_contra hkey
    have hmeets := (attempt.method_ordered self rounds hkey).meets (Program.lacks_empty st.sem)
    rw [Program.Meets, hraised] at hmeets
    obtain ⟨held, ⟨l, hl⟩, hlacks⟩ := hmeets
    have hone := hlacks l
    rw [if_pos hl, hrestored.sem] at hone
    omega
  · intro hkey
    cases attempt with
    | put data timestamp => exact hkey.elim
    | get key =>
      obtain ⟨rfl, hone⟩ := hkey
      have haddress : q.addressKey none = raise := if_neg hone
      unfold Attempt.method Object.get at hraised
      dsimp only at hraised
      rw [haddress] at hraised
      obtain rfl : st = st' := congrArg Prod.snd hraised
      exact ⟨rfl, rfl, fun _ => rfl⟩

end

/-- A get without a key raises on a queue of two keys, before it takes a semaphore. -/
theorem restored_iff_keyless_twoKeys : ∃ st', ((Attempt.get none).method (twoSlots 2) 1 {}).run (twoSlots 2).fresh =
    (.raised, st') ∧ Restored (twoSlots 2).fresh st' :=
  ⟨_, rfl, (restored_iff_keyless (twoSlots 2) (.get none) 1 {} _ _ rfl).mpr ⟨rfl, by decide⟩⟩

/-- Elements of two bytes, whose shape a `put` does not check. -/
def twoBytes : CrossQueue (Fin (2 ^ 53)) := { twoSlots 1 with itemsize := 2 }

/-- A payload with one byte too many for its segment, and a `get` of one byte that is half an element. -/
theorem not_restored_oversized_half :
    (∃ st', ((Attempt.put [0, 0, 0, 0, 0] 0).method (twoSlots 1) 1 {}).run (twoSlots 1).fresh = (.raised, st') ∧
      ¬ Restored (twoSlots 1).fresh st') ∧
    ∃ self st st', ((Attempt.put [0] 0).method twoBytes 1 {}).run twoBytes.fresh = (.returned self, st) ∧
      ((Attempt.get none).method twoBytes 1 {}).run st = (.raised, st') ∧ ¬ Restored st st' := by
  refine ⟨⟨_, rfl, fun h => ?_⟩, _, _, _, rfl, rfl, fun h => ?_⟩
  · exact absurd (congrFun h.sem .rear) (by decide)
  · exact absurd (congrFun h.sem (.front 0)) (by decide)

end Soar.Computing
