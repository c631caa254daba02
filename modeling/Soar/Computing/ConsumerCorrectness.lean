import Soar.Computing.RingRuns

/-! Both versions of `get` as consumers of the ring, for every schedule of the processes. -/
namespace Soar.Computing
open Soar.Library

/-- Timestamps of whole seconds, which are floats that Python prints with one decimal. -/
def wholeSeconds : TimestampText (Fin (2 ^ 53)) where
  str t := str t ++ [46, 48]
  float? s :=
    match int? (s.take (s.length - 2)) with
    | some n => if h : n < 2 ^ 53 ∧ s.drop (s.length - 2) = [46, 48] then some ⟨n, h.1⟩ else none
    | none => none
  float?_str t := by simp [int?_str]
  sentinelFree_str t := by
    intro h
    have hmem : (92 : UInt8) ∈ str t ++ [46, 48] := h.subset (List.mem_cons_self ..)
    rcases List.mem_append.mp hmem with hs | hs
    · exact (mem_str hs).2 rfl
    · simp at hs

/-- A ring of two slots for payloads of one byte. -/
def twoSlots (frontKeys : Nat) : CrossQueue (Fin (2 ^ 53)) where
  maxLength := 2
  frontKeys := frontKeys
  shape := [1]
  itemsize := 1
  maxDataSize := 8
  blank := 0
  timestamp := wholeSeconds
  rereadsRear := false
  two_le_maxLength := le_rfl
  isDigit_blank := rfl

/-- Put 0 carries the byte 0 at second 0, all others the byte 1 at second 1. -/
def payloads (n : Nat) : Bytes × Fin (2 ^ 53) := if n = 0 then ([0], 0) else ([1], 1)

/-- Put 0 has one byte too many for the shape of `twoSlots`. -/
def misshapenFirst (n : Nat) : Bytes × Fin (2 ^ 53) := if n = 0 then ([0, 0], 0) else ([1], 1)

private theorem sentinelFree_payloads (n : Nat) : SentinelFree (payloads n).1 := by
  unfold payloads
  split_ifs <;> exact sentinelFree_of_length (by decide)

private theorem sentinelFree_misshapenFirst (n : Nat) : SentinelFree (misshapenFirst n).1 := by
  unfold misshapenFirst
  split_ifs <;> exact sentinelFree_of_length (by decide)

private theorem shaped_payloads (keys n : Nat) : (twoSlots keys).Shaped (payloads n).1 := by
  unfold payloads
  split_ifs <;> rfl

/-- A put into a ring with room, for one key, and the get of its consumer. -/
def putGet : List Process := List.replicate 9 .producer ++ List.replicate 12 (.consumer 0)

/-- Whatever the interleaving, what `InferQueue.get` returns are puts in strictly increasing
order, and a put that it skips has been overtaken or does not have the shape of the queue. -/
theorem infer_get_consumes {τ : Type} (q : CrossQueue τ) (items : Nat → Bytes × τ)
    (hclean : ∀ n, SentinelFree (items n).1) (schedule : List Process) (k : Nat) (hk : k < q.frontKeys) :
    Consumes q items (fun n => ¬ q.Shaped (items n).1) (run q (InferQueue.get q) items schedule) k := by
  have hinv : (run q (InferQueue.get q) items schedule).Inv q .infer items :=
    run_inv hclean (fun w t h _ => h.quiet_infer t)
      (EachStepFrom.of_forall (P := fun _ _ => True) (fun _ _ => trivial) schedule)
  exact hinv.consumes hk

/-- Two puts, each followed by a get. -/
theorem infer_get_consumes_twoPuts :
    Consumes (twoSlots 1) payloads (fun n => ¬ (twoSlots 1).Shaped (payloads n).1)
        (run (twoSlots 1) (InferQueue.get (twoSlots 1)) payloads (putGet ++ putGet)) 0 ∧
      ((run (twoSlots 1) (InferQueue.get (twoSlots 1)) payloads (putGet ++ putGet)).consumer 0).returned =
        [payloads 0, payloads 1] :=
  ⟨infer_get_consumes (twoSlots 1) payloads sentinelFree_payloads (putGet ++ putGet) 0 (by decide), by decide +kernel⟩

/-- A put without the shape of the queue is skipped though nothing has overtaken it. -/
theorem not_infer_get_consumes_misshapen : (∀ n, SentinelFree (misshapenFirst n).1) ∧
    ¬ Consumes (twoSlots 1) misshapenFirst (fun _ => False)
      (run (twoSlots 1) (InferQueue.get (twoSlots 1)) misshapenFirst (putGet ++ putGet)) 0 := by
  have hrun : ((run (twoSlots 1) (InferQueue.get (twoSlots 1)) misshapenFirst (putGet ++ putGet)).consumer 0).returned =
        [([1], 1)] ∧
      (run (twoSlots 1) (InferQueue.get (twoSlots 1)) misshapenFirst (putGet ++ putGet)).ring.history 0 =
        [.taken, .taken] := by
    decide +kernel
  refine ⟨sentinelFree_misshapenFirst, ?_⟩
  rintro ⟨puts, -, hreturned, -, hskipped⟩
  rw [hrun.1] at hreturned
  obtain ⟨n, rfl, hn⟩ := List.map_eq_singleton_iff.mp hreturned.symm
  have hpos : 0 < n := by
    apply Nat.pos_of_ne_zero
    intro h0
    rw [h0] at hn
    exact absurd hn (by decide)
  rcases hskipped 0 (by simpa using hpos.ne) ⟨n, List.mem_singleton_self n, hpos⟩ with ⟨r, hr, -⟩ | hfalse
  · rw [hrun.2] at hr
    exact Move.noConfusion (Option.some.inj hr)
  · exact hfalse

/-- What `CrossQueue.get` returns are puts in strictly increasing order, and only overtaken puts
are skipped, in the runs in which no overflow moves the front of a consumer between its
emptiness check and its lock of the front. -/
theorem cross_get_consumes {τ : Type} (q : CrossQueue τ) (items : Nat → Bytes × τ)
    (hclean : ∀ n, SentinelFree (items n).1) (hshaped : ∀ n, q.Shaped (items n).1) (schedule : List Process)
    (hquiet : EachStep (fun w t => undisturbed w t) q (CrossQueue.get q) items schedule) (k : Nat)
    (hk : k < q.frontKeys) : Consumes q items (fun _ => False) (run q (CrossQueue.get q) items schedule) k := by
  have hinv : (run q (CrossQueue.get q) items schedule).Inv q .cross items :=
    run_inv hclean (fun w t h hu => h.quiet_cross hu) hquiet
  obtain ⟨puts, hsorted, hreturned, hbegun, hskipped⟩ := hinv.consumes hk
  refine ⟨puts, hsorted, hreturned, hbegun, fun n hn hm => ?_⟩
  exact .inl ((hskipped n hn hm).resolve_right (not_not.mpr (hshaped n)))

/-- Two consumers: the first gets put 0, which put 1 then overtakes for the second. -/
def overtaking : List Process :=
  List.replicate 12 .producer ++ List.replicate 12 (.consumer 0) ++ List.replicate 13 .producer ++
    List.replicate 12 (.consumer 1)

/-- A consumer is overtaken by the overflow of a full ring. -/
theorem cross_get_consumes_overtaking :
    Consumes (twoSlots 2) payloads (fun _ => False)
        (run (twoSlots 2) (CrossQueue.get (twoSlots 2)) payloads overtaking) 1 ∧
      ((run (twoSlots 2) (CrossQueue.get (twoSlots 2)) payloads overtaking).consumer 1).returned = [payloads 1] :=
  ⟨cross_get_consumes (twoSlots 2) payloads sentinelFree_payloads (shaped_payloads 2) overtaking
    (by decide +kernel) 1 (by decide), by decide +kernel⟩

/-- The consumer reads the data of put 0, then puts 1 and 2 fill the ring and overwrite the slot,
then it reads the timestamp. -/
def tearing : List Process :=
  List.replicate 9 .producer ++ List.replicate 7 (.consumer 0) ++ List.replicate 14 .producer ++
    List.replicate 5 (.consumer 0)

/-- `CrossQueue.get` returns the data of one put with the timestamp of another. -/
theorem not_cross_get_consumes_tearing :
    (∀ n, SentinelFree (payloads n).1) ∧ (∀ n, (twoSlots 1).Shaped (payloads n).1) ∧
    ¬ Consumes (twoSlots 1) payloads (fun _ => False)
      (run (twoSlots 1) (CrossQueue.get (twoSlots 1)) payloads tearing) 0 := by
  have hrun : ((run (twoSlots 1) (CrossQueue.get (twoSlots 1)) payloads tearing).consumer 0).returned = [([0], 1)] := by
    decide +kernel
  refine ⟨sentinelFree_payloads, shaped_payloads 1, ?_⟩
  rintro ⟨puts, -, hreturned, -, -⟩
  rw [hrun] at hreturned
  obtain ⟨n, -, hn⟩ := List.map_eq_singleton_iff.mp hreturned.symm
  unfold payloads at hn
  split_ifs at hn
  · exact absurd hn (by decide)
  · exact absurd hn (by decide)

end Soar.Computing
