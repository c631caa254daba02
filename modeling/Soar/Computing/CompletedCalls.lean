import Soar.Computing.ConsumerSizes

/-! What a completed call has done to a queue whose payloads need not have its shape. -/
namespace Soar.Computing
open Soar.Library Method

variable {τ : Type} {q : CrossQueue τ} {v : Version} {w w' : Callers} {l : Ledger τ} {objects : Set Object}
  {puts : List (Bytes × τ)} {front : Nat → Nat} {self : Object} {k : Nat}
  {st : Shared Semaphore Segment (Option Bytes)}

theorem push_suffix (maxLength : Nat) (x : Bytes × τ) (queue : List (Bytes × τ)) :
    push maxLength x queue <:+ queue ++ [x] := by
  unfold push
  split_ifs
  · exact (List.suffix_append_inj_of_length_eq rfl).mpr ⟨List.tail_suffix queue, rfl⟩
  · exact List.suffix_refl _

private theorem getRounds_item_meets (hk : k < q.frontKeys) (hsem : ∀ l, st.sem l = 1)
    (h : Stored q objects st.mem puts front) (hself : self ∈ objects) (rounds : Nat) :
    (Object.getRounds q v k rounds self).Meets st ⟨fun r st' => ∀ x, r.2 = some x → st'.sem = st.sem ∧
      q.Shaped x.1 ∧ ∃ n, x :: puts.drop (n + 1) <:+ puts.drop (front k) ∧
        Stored q (insert r.1 objects) st'.mem puts (Function.update front k (n + 1)), fun _ => True, True⟩ := by
  induction rounds generalizing self objects front st with
  | zero =>
    intro x hx
    cases hx
  | succ rounds ih =>
    rcases (h.le k hk).eq_or_lt with hempty | hlt
    · refine (getRounds_empty_meets hk hsem h hself hempty (rounds + 1)).mono (fun r st' hnone x hx => ?_)
          (fun _ => id) id
      rw [hnone] at hx
      cases hx
    · rw [Object.getRounds]
      refine (getRound_meets hk hsem h hself hlt).bind (fun r st' hround => ?_) (fun _ _ => trivial) False.elim
      obtain ⟨self', item⟩ := r
      obtain ⟨hitem, hsem', hstored⟩ := hround
      have hcons := List.drop_eq_getElem_cons hlt
      by_cases hshaped : q.Shaped puts[front k].1
      · rw [if_pos hshaped] at hitem
        obtain rfl : item = some _ := hitem
        intro x hx
        obtain rfl := Option.some.inj hx
        exact ⟨hsem', hshaped, front k, hcons ▸ List.suffix_refl _, hstored⟩
      · rw [if_neg hshaped] at hitem
        obtain rfl : item = none := hitem
        refine (ih (fun l => by rw [hsem', hsem]) hstored (Set.mem_insert ..)).mono (fun r st'' hrest x hx => ?_)
          (fun _ => id) id
        obtain ⟨hsem'', hx', n, hsuffix, hstored'⟩ := hrest x hx
        rw [Function.update_idem] at hstored'
        rw [Function.update_self] at hsuffix
        refine ⟨hsem''.trans hsem', hx', n, hsuffix.trans ?_,
          hstored'.mono (Set.insert_subset_insert (Set.subset_insert ..))⟩
        rw [hcons]
        exact List.suffix_cons _ _

/-- What a completed get returns was put, and what is left was put after it. -/
theorem Recorded.get_item (h : Recorded q w l) (hk : k < q.frontKeys) {rounds object : Nat} {a : Answer τ}
    (hstep : w.step q v rounds ⟨object, .get k⟩ = some (a, w')) :
    ∃ x rest, a = .item x.1 x.2 ∧ q.Shaped x.1 ∧ x :: rest <:+ l.left k ∧
      Recorded q w' { l with left := Function.update l.left k rest } := by
  obtain ⟨hsem, puts, front, hstored, hputs, hleft⟩ := h
  have hget : ((Operation.get k).method q v rounds (w.objects object)).Meets w.shared
      ⟨fun r st => ∀ a, r.2 = some a → ∃ x n, a = .item x.1 x.2 ∧ q.Shaped x.1 ∧ st.sem = w.shared.sem ∧
        x :: puts.drop (n + 1) <:+ puts.drop (front k) ∧
        Stored q (insert r.1 (Set.range w.objects)) st.mem puts (Function.update front k (n + 1)),
        fun _ => True, True⟩ := by
    refine (getRounds_item_meets hk hsem hstored ⟨object, rfl⟩ rounds).bind (fun r st hget => ?_) (fun _ => id) id
    intro a ha
    obtain ⟨x, hx, rfl⟩ := Option.map_eq_some_iff.mp ha
    obtain ⟨hsem', hshaped, n, hsuffix, hstored'⟩ := hget x hx
    exact ⟨x, n, rfl, hshaped, hsem', hsuffix, hstored'⟩
  obtain ⟨self, hget, hobjects⟩ := returned_of_step hget hstep
  obtain ⟨x, n, rfl, hshaped, hsem', hsuffix, hstored'⟩ := hget a rfl
  refine ⟨x, puts.drop (n + 1), rfl, hshaped, hleft k hk ▸ hsuffix, fun s => by rw [hsem', hsem], puts, _,
    hobjects ▸ hstored'.mono (range_update_subset ..), hputs, ?_⟩
  intro j hj
  dsimp only
  rw [Function.update_apply, Function.update_apply]
  split_ifs
  · rfl
  · exact hleft j hj

/-- Looking at the times or for an item leaves what is in the queue. -/
theorem Recorded.look (h : Recorded q w l) (hk : k < q.frontKeys) {rounds object : Nat} {operation : Operation τ}
    (hlook : (∃ top, operation = .gettime k top) ∨ operation = .isEmpty k) {a : Answer τ}
    (hstep : w.step q v rounds ⟨object, operation⟩ = some (a, w')) : Recorded q w' l := by
  obtain ⟨hsem, puts, front, hstored, hputs, hleft⟩ := h
  have hmeets : (operation.method q v rounds (w.objects object)).Meets w.shared
      ⟨fun r st => st = w.shared ∧ Stored q (insert r.1 (Set.range w.objects)) st.mem puts front,
        fun _ => False, False⟩ := by
    rcases hlook with ⟨top, rfl⟩ | rfl
    · refine (gettime_meets hk hsem hstored ⟨object, rfl⟩ top).bind (fun r st htimes => ?_) (fun _ => id) id
      obtain ⟨rfl, hstored', -⟩ := htimes
      exact ⟨rfl, hstored'⟩
    · refine (isEmpty_meets hk hsem hstored ⟨object, rfl⟩).bind (fun r st hchecked => ?_) (fun _ => id) id
      obtain ⟨rfl, -, hstored', -⟩ := hchecked
      exact ⟨rfl, hstored'⟩
  obtain ⟨self, ⟨hshared, hstored'⟩, hobjects⟩ := returned_of_step hmeets hstep
  refine ⟨fun s => by rw [hshared, hsem], puts, front, hobjects ▸ hstored'.mono (range_update_subset ..), hputs, hleft⟩

/-- Where the texts fit, a put of data that fit completes. -/
theorem Recorded.put_completes (h : Recorded q w l) (hfit : q.TextsFit) {data : Bytes}
    (hfits : data.length + 4 ≤ q.maxDataSize) (timestamp : τ) (rounds object : Nat) :
    ∃ w', w.step q v rounds ⟨object, .put data timestamp⟩ = some (.done, w') := by
  obtain ⟨hsem, puts, front, hstored, -, -⟩ := h
  have hput : ((Operation.put data timestamp).method q v rounds (w.objects object)).Meets w.shared
      ⟨fun r _ => r.2 = some .done, fun _ => ¬ q.TextsFit, False⟩ := by
    exact (put_meets (x := (data, timestamp)) hsem hstored ⟨object, rfl⟩ hfits).bind (fun _ _ _ => rfl) (fun _ => id) id
  unfold Callers.step
  rcases Program.Meets.ending hput with ⟨⟨self, answer⟩, st, hrun, rfl⟩ | ⟨st, hrun, hraised⟩ | ⟨_, _, hblocked⟩
  · rw [hrun]
    exact ⟨_, rfl⟩
  · exact absurd hfit hraised
  · exact hblocked.elim

end Soar.Computing
