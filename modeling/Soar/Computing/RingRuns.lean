import Soar.Computing.PutSteps
import Soar.Computing.GetSteps

/-! Runs of one producer and its consumers. In a run that never moves a front which its
consumer has cached, every consumer sees the puts in order. -/
namespace Soar.Computing
open Soar.Library

variable {τ : Type} {q : CrossQueue τ} {v : Version} {items : Nat → Bytes × τ} {w : System τ}

def System.Inv (q : CrossQueue τ) (v : Version) (items : Nat → Bytes × τ) (w : System τ) : Prop :=
  Computing.Inv q v items w.ring w.producer w.consumer

/-- The invariant holds of the queue that has just been created. -/
theorem create_inv (q : CrossQueue τ) (v : Version) (items : Nat → Bytes × τ) : q.create.Inv q v items := by
  have htwo := q.two_le_maxLength
  refine ⟨⟨?_, False.elim, False.elim, fun _ => False.elim, fun _ => False.elim, ?_, False.elim, False.elim⟩, ?_⟩
  · exact (readInt_replicate q.isDigit_blank 32 0).trans (Nat.zero_mod _).symm
  · exact fun a ha => absurd ha (Nat.not_lt_zero a)
  · intro k hk
    exact {
      rear_text := (readInt_replicate q.isDigit_blank 32 0).trans (Nat.zero_mod _).symm
      front_text := (readInt_replicate q.isDigit_blank 32 0).trans (Nat.zero_mod _).symm
      fronts_text := (readInt_replicate q.isDigit_blank 32 0).trans (Nat.zero_mod _).symm
      room := by show 0 + 1 ≤ 0 + q.maxLength; omega
      room_checked := False.elim
      full := fun he => PutPoint.noConfusion he
      le := Nat.zero_le _
      le_unchecked := fun _ => Nat.zero_le _
      past := False.elim
      past_unchecked := False.elim
      front := False.elim
      data := False.elim
      time := False.elim
      holdsRear := False.elim
      holdsFront := False.elim
      delivered := rfl
      overflow := fun n r hn => by simp [CrossQueue.create] at hn }

private theorem Inv.apart {ring : Ring} {p : Producer} {cs : Nat → Consumer τ} {k : Nat}
    (h : Computing.Inv q v items ring p cs) (hp : p.point = .writeFront k) :
    ¬ (cs k).point.holdsRear ∧ ¬ (cs k).point.holdsFront v := by
  have hkey := h.key k (h.put.key k (by simp [hp]))
  refine ⟨fun hr => ?_, fun hf => ?_⟩
  · exact Process.noConfusion (Option.some.inj ((h.put.holdsRear (by simp [hp])).symm.trans (hkey.holdsRear hr)))
  · exact Process.noConfusion (Option.some.inj ((h.put.holdsFront k (by simp [hp])).symm.trans (hkey.holdsFront hf)))

/-- The step moves no front that its consumer has cached. -/
def Quiet (v : Version) (w : System τ) (t : Process) : Prop :=
  t = .producer → ∀ k, w.producer.point = .writeFront k → ¬ (w.consumer k).point.knowsFront v

theorem System.Inv.quiet_infer (h : w.Inv q .infer items) (t : Process) : Quiet .infer w t := by
  intro _ k hp hk
  obtain ⟨hrear, hfront⟩ := Inv.apart h hp
  generalize (w.consumer k).point = point at hk hrear hfront
  cases point <;> simp_all

/-- The step is no overflow that moves the front of a consumer between its emptiness check and
its lock of the front. -/
def undisturbed (w : System τ) : Process → Bool
  | .producer =>
    match w.producer.point with
    | .writeFront k => decide ((w.consumer k).point ∉ [GetPoint.readData, .readTime, .lockFront])
    | _ => true
  | .consumer _ => true

theorem System.Inv.quiet_cross (h : w.Inv q .cross items) {t : Process} (hu : undisturbed w t) : Quiet .cross w t := by
  rintro rfl k hp hk
  have hout : (w.consumer k).point ∉ [GetPoint.readData, .readTime, .lockFront] := by
    simpa [undisturbed, hp] using hu
  obtain ⟨hrear, hfront⟩ := Inv.apart h hp
  generalize (w.consumer k).point = point at hk hrear hfront hout
  cases point <;> simp_all

/-- A step of any process keeps the invariant, unless it disturbs a consumer that has read its front. -/
theorem System.Inv.step (h : w.Inv q v items) (hclean : ∀ n, SentinelFree (items n).1) {t : Process}
    (hquiet : Quiet v w t) : (step q (q.getBy v) items w t).Inv q v items := by
  cases t with
  | producer => exact Inv.put_step h (fun n => (asRead_eq (hclean n)).symm) (hquiet rfl)
  | consumer k =>
    rw [Computing.step]
    split_ifs with hk
    · exact Inv.get_step h hk
    · exact h

/-- Every step of the run from `w` meets the condition `P`. -/
def EachStepFrom (P : System τ → Process → Prop) (q : CrossQueue τ) (get : Nat → Consumer τ → Op (Consumer τ))
    (items : Nat → Bytes × τ) : System τ → List Process → Prop
  | _, [] => True
  | w, t :: schedule => P w t ∧ EachStepFrom P q get items (step q get items w t) schedule

instance EachStepFrom.decidable {P : System τ → Process → Prop} [∀ w t, Decidable (P w t)] (q : CrossQueue τ)
    (get : Nat → Consumer τ → Op (Consumer τ)) (items : Nat → Bytes × τ) :
    ∀ w schedule, Decidable (EachStepFrom P q get items w schedule)
  | _, [] => instDecidableTrue
  | w, t :: schedule =>
    have := EachStepFrom.decidable (P := P) q get items (step q get items w t) schedule
    instDecidableAnd

def EachStep (P : System τ → Process → Prop) (q : CrossQueue τ) (get : Nat → Consumer τ → Op (Consumer τ))
    (items : Nat → Bytes × τ) (schedule : List Process) : Prop := EachStepFrom P q get items q.create schedule

instance {P : System τ → Process → Prop} [∀ w t, Decidable (P w t)] (q : CrossQueue τ)
    (get : Nat → Consumer τ → Op (Consumer τ)) (items : Nat → Bytes × τ) (schedule : List Process) :
    Decidable (EachStep P q get items schedule) := EachStepFrom.decidable q get items q.create schedule

theorem EachStepFrom.of_forall {P : System τ → Process → Prop} (hP : ∀ w t, P w t) {q : CrossQueue τ}
    {get : Nat → Consumer τ → Op (Consumer τ)} (schedule : List Process) :
    EachStepFrom P q get items w schedule := by
  induction schedule generalizing w with
  | nil => trivial
  | cons t schedule ih => exact ⟨hP w t, ih⟩

private theorem inv_run (hclean : ∀ n, SentinelFree (items n).1) {P : System τ → Process → Prop}
    (hP : ∀ w t, System.Inv q v items w → P w t → Quiet v w t) {schedule : List Process} (h : w.Inv q v items)
    (hs : EachStepFrom P q (q.getBy v) items w schedule) :
    (schedule.foldl (Computing.step q (q.getBy v) items) w).Inv q v items := by
  induction schedule generalizing w with
  | nil => exact h
  | cons t schedule ih => exact ih (h.step hclean (hP w t h hs.1)) hs.2

/-- The invariant holds at the end of every run whose steps meet a condition that keeps it. -/
theorem run_inv (hclean : ∀ n, SentinelFree (items n).1) {P : System τ → Process → Prop}
    (hP : ∀ w t, System.Inv q v items w → P w t → Quiet v w t) {schedule : List Process}
    (hs : EachStep P q (q.getBy v) items schedule) : (run q (q.getBy v) items schedule).Inv q v items :=
  inv_run hclean hP (create_inv q v items) hs

/-! From the invariant to what a consumer has returned. -/

theorem mem_taken {moves : List Move} {n : Nat} : n ∈ taken moves ↔ moves[n]? = some .taken := by
  rw [taken, List.mem_filter, List.mem_range, decide_eq_true_eq]
  exact ⟨And.right, fun h => ⟨(List.getElem?_eq_some_iff.mp h).1, h⟩⟩

theorem taken_sorted (moves : List Move) : (taken moves).Pairwise (· < ·) :=
  List.pairwise_lt_range.sublist List.filter_sublist

theorem Consumer.delivered_extends (q : CrossQueue τ) (c : Consumer τ) : c.returned <+: c.delivered q := by
  unfold Consumer.delivered CrossQueue.finish
  split_ifs
  · exact List.prefix_append ..
  · exact List.prefix_rfl
  · exact List.prefix_rfl

theorem Key.length_le_begun {ring : Ring} {p : Producer} {c : Consumer τ} {k : Nat} (h : Key q v items ring p c k) :
    (ring.history k).length ≤ p.begun := by
  unfold Producer.begun
  split_ifs with hp
  · apply h.le_unchecked
    rcases hp with hp | hp <;> simp [hp]
  · exact h.le

/-- The invariant says what each consumer has returned: the items that it has taken, in their order. -/
theorem System.Inv.consumes (h : w.Inv q v items) {k : Nat} (hk : k < q.frontKeys) :
    Consumes q items (fun n => ¬ q.Shaped (items n).1) w k := by
  have hkey := h.key k hk
  let puts := (taken (w.ring.history k)).filter fun n => q.Shaped (items n).1
  have hsorted : puts.Pairwise (· < ·) := (taken_sorted _).sublist List.filter_sublist
  have hlt : ∀ n ∈ puts, n < (w.ring.history k).length := fun n hn =>
    (List.getElem?_eq_some_iff.mp (mem_taken.mp (List.mem_filter.mp hn).1)).1
  obtain ⟨m, hm⟩ : ∃ m, (w.consumer k).returned = (puts.take m).map items := by
    have hp := (w.consumer k).delivered_extends q
    rw [hkey.delivered] at hp
    exact ⟨_, by rw [List.map_take]; exact List.prefix_iff_eq_take.mp hp⟩
  refine ⟨puts.take m, hsorted.sublist (List.take_sublist ..), hm, ?_, ?_⟩
  · intro n hn
    exact (hlt n (List.mem_of_mem_take hn)).trans_le hkey.length_le_begun
  · rintro n hn ⟨m', hm', hnm⟩
    have hnew : n ∉ puts := by
      -- what follows the returned puts comes after them
      intro hin
      rw [← List.take_append_drop m puts] at hin hsorted
      rcases List.mem_append.mp hin with hin | hin
      · exact hn hin
      · exact absurd ((List.pairwise_append.mp hsorted).2.2 m' hm' n hin) (by omega)
    have hlen : n < (w.ring.history k).length := hnm.trans (hlt m' (List.mem_of_mem_take hm'))
    have hmove : (w.ring.history k)[n]? = some (w.ring.history k)[n] := List.getElem?_eq_getElem hlen
    cases hcase : (w.ring.history k)[n] with
    | taken =>
      rw [hcase] at hmove
      exact .inr fun hs => hnew (List.mem_filter.mpr ⟨mem_taken.mpr hmove, by simpa using hs⟩)
    | overflow r =>
      rw [hcase] at hmove
      obtain ⟨hr, hb⟩ := hkey.overflow n r hmove
      exact .inl ⟨r, hmove, hr.ge, hb⟩

end Soar.Computing
