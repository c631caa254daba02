import Soar.Computing.SequentialMeaning

/-! Whether a payload that is written is read back, and one that is put is what a get returns. -/
namespace Soar.Computing
open Soar.Library

section
variable {τ : Type} {q : CrossQueue τ} {v : Version} {w w' : Callers} {queues : Nat → List (Bytes × τ)}

private theorem not_shaped_cut {data : Bytes} (hshaped : q.Shaped data) (hcut : ¬ SentinelFree data) :
    ¬ q.Shaped (cut data) := by
  intro hshaped'
  refine hcut (cut_eq_self_iff.mp ((cut_initial data).eq_of_length ?_))
  exact hshaped'.trans hshaped.symm

private theorem Represents.stored_put (h : Represents q w queues) {rounds k producer : Nat} (hk : k < q.frontKeys)
    (hempty : queues k = []) {data : Bytes} {timestamp : τ} (hfits : data.length + 4 ≤ q.maxDataSize)
    (hstep : w.step q v rounds ⟨producer, .put data timestamp⟩ = some (.done, w')) :
    (∀ l, w'.shared.sem l = 1) ∧ ∃ puts front, front k = puts.length ∧
      Stored q (Set.range w'.objects) w'.shared.mem (puts ++ [(cut data, timestamp)]) front := by
  obtain ⟨hsem, puts, front, hstored, -, hqueues⟩ := h
  have hfront : front k = puts.length := by
    have hdrop := (hqueues k hk).symm.trans hempty
    exact le_antisymm (hstored.le k hk) (List.drop_eq_nil_iff.mp hdrop)
  have hput : ((Operation.put data timestamp).method q v rounds (w.objects producer)).Meets w.shared
      ⟨fun r st => st.sem = w.shared.sem ∧ ∃ front', (∀ k < q.frontKeys, front' k = pushed q puts.length (front k)) ∧
        Stored q (insert r.1 (Set.range w.objects)) st.mem (puts ++ [(cut data, timestamp)]) front',
        fun _ => ¬ q.TextsFit, False⟩ :=
    (put_meets (x := (data, timestamp)) hsem hstored ⟨producer, rfl⟩ hfits).bind (fun _ _ hput => hput) (fun _ => id) id
  obtain ⟨self, ⟨hsem', front', hfront', hstored'⟩, hobjects⟩ := returned_of_step hput hstep
  refine ⟨fun l => by rw [hsem', hsem], puts, front', ?_, hobjects ▸ hstored'.mono (range_update_subset ..)⟩
  have htwo := q.two_le_maxLength
  rw [hfront' k hk, pushed, if_neg (by omega), hfront]

/-- A payload put into an empty queue is what the next get returns if and only if it has no sentinel. -/
theorem Represents.put_get_iff (h : Represents q w queues) (hfit : q.TextsFit) {k : Nat} (hk : k < q.frontKeys)
    (hempty : queues k = []) {data : Bytes} (hfits : data.length + 4 ≤ q.maxDataSize) (hshaped : q.Shaped data)
    (timestamp : τ) (producer consumer rounds : Nat) :
    (∃ w' w'', w.step q v (rounds + 1) ⟨producer, .put data timestamp⟩ = some (.done, w') ∧
      w'.step q v (rounds + 1) ⟨consumer, .get k⟩ = some (.item data timestamp, w'')) ↔ SentinelFree data := by
  constructor
  · rintro ⟨w', w'', hput, hget⟩
    by_contra hcut
    obtain ⟨hsem, puts, front, hfront, hstored⟩ := h.stored_put hk hempty hfits hput
    have hlt : front k < (puts ++ [(cut data, timestamp)]).length := by simp [hfront]
    have hitem : (puts ++ [(cut data, timestamp)])[front k] = (cut data, timestamp) := by simp [hfront]
    have hnothing := get_unshaped_meets (v := v) hk hsem hstored ⟨consumer, rfl⟩ hlt (by simp [hfront])
      (by rw [hitem]; exact not_shaped_cut hshaped hcut) (rounds + 1)
    have hmeets : ((Operation.get k).method q v (rounds + 1) (w'.objects consumer)).Meets w'.shared
        ⟨fun r _ => r.2 = none, fun _ => True, True⟩ :=
      hnothing.bind (fun r _ hnone => by simpa using hnone) (fun _ => id) id
    obtain ⟨self, hnone, -⟩ := returned_of_step hmeets hget
    cases hnone
  · intro hclean
    rcases h.step (v := v) rounds (c := ⟨producer, .put data timestamp⟩) ⟨hfits, hshaped, hclean⟩ rfl with
      ⟨w', hput, hrepresents⟩ | ⟨-, hunfit⟩
    · have htwo := q.two_le_maxLength
      have hcons : push q.maxLength (data, timestamp) (queues k) = [(data, timestamp)] := by
        rw [hempty, push, if_neg (by rw [List.length_nil]; omega), List.nil_append]
      have hfifo : fifoStep q.maxLength (fun k => push q.maxLength (data, timestamp) (queues k)) (.get k) =
          some (.item data timestamp,
            Function.update (fun k => push q.maxLength (data, timestamp) (queues k)) k []) := by
        rw [fifoStep, hcons]
      rcases hrepresents.step (v := v) rounds (c := ⟨consumer, .get k⟩) hk hfifo with ⟨w'', hget, -⟩ | ⟨-, hunfit⟩
      · exact ⟨w', w'', hput, hget⟩
      · exact absurd hfit hunfit
    · exact absurd hfit hunfit

end

/-- A payload is read back as it was written, and as it was put, if and only if it has no sentinel. -/
theorem round_trip_iff (s : Bytes) :
    (∀ memory : Bytes, s.length + 4 ≤ memory.length →
      ((∃ memory', writeToMemory s memory = some memory' ∧ readFromMemory memory' = s) ↔ SentinelFree s)) ∧
    ∀ {τ : Type} (q : CrossQueue τ) (v : Version) (w : Callers) (queues : Nat → List (Bytes × τ)) (k : Nat),
      Represents q w queues → q.TextsFit → k < q.frontKeys → queues k = [] → s.length + 4 ≤ q.maxDataSize → q.Shaped s →
      ∀ (timestamp : τ) (producer consumer rounds : Nat),
        (∃ w' w'', w.step q v (rounds + 1) ⟨producer, .put s timestamp⟩ = some (.done, w') ∧
          w'.step q v (rounds + 1) ⟨consumer, .get k⟩ = some (.item s timestamp, w'')) ↔ SentinelFree s := by
  refine ⟨fun memory hfits => ?_,
    fun q v w queues k hqueue hfit hk hempty hfits hshaped timestamp producer consumer rounds =>
    hqueue.put_get_iff hfit hk hempty hfits hshaped timestamp producer consumer rounds⟩
  rw [← cut_eq_self_iff]
  constructor
  · rintro ⟨memory', hwrite, hread⟩
    exact (readFromMemory_written hwrite).symm.trans hread
  · intro hcut
    have hwrite : writeToMemory s memory = some (s ++ nullChar ++ memory.drop (s ++ nullChar).length) :=
      if_pos (by rw [List.length_append]; exact hfits)
    exact ⟨_, hwrite, (readFromMemory_written hwrite).trans hcut⟩

/-- A payload of one byte, in a segment and through a queue. -/
theorem round_trip_iff_oneByte :
    (∃ memory', writeToMemory [7] (List.replicate 8 69) = some memory' ∧ readFromMemory memory' = [7]) ∧
      ∃ w' w'', (twoSlots 1).callers.step (twoSlots 1) .infer 1 ⟨0, .put [7] 3⟩ = some (.done, w') ∧
        w'.step (twoSlots 1) .infer 1 ⟨1, .get 0⟩ = some (.item [7] 3, w'') := by
  obtain ⟨hmemory, hqueue⟩ := round_trip_iff [7]
  have hclean : SentinelFree [7] := sentinelFree_of_length (by decide)
  refine ⟨(hmemory _ (by decide)).mpr hclean, ?_⟩
  exact (hqueue (twoSlots 1) .infer _ _ 0 (twoSlots 1).callers_represents (textsFit_twoSlots 1) Nat.one_pos rfl
      (by decide) rfl
    3 0 1 0).mpr hclean

/-- The shortest of the payloads that are not read back is the sentinel itself. -/
theorem not_round_trip_nullChar :
    ¬ ∀ (s memory : Bytes), s.length + 4 ≤ memory.length →
      ∃ memory', writeToMemory s memory = some memory' ∧ readFromMemory memory' = s := by
  intro h
  obtain ⟨memory', hwrite, hread⟩ := h nullChar (List.replicate 8 0) (by decide)
  rw [readFromMemory_written hwrite] at hread
  exact absurd hread (by decide)

end Soar.Computing
