import Mathlib.Data.Int.ModEq
import Mathlib.Data.List.Induction
import Soar.Computing.SequentialMeaning

/-! What `size` returns for all consumers of a queue, each with its own front. -/
namespace Soar.Computing
open Soar.Library Method

section
variable {τ : Type}

/-- A put, or a get with a key. -/
def Operation.Moves : Operation τ → Prop
  | .put .. | .get _ => True
  | .gettime .. | .isEmpty _ => False

instance : (operation : Operation τ) → Decidable operation.Moves
  | .put .. | .get _ => instDecidableTrue
  | .gettime .. | .isEmpty _ => instDecidableFalse

/-- A queue after calls one after another, if all of them complete. -/
def CrossQueue.after (q : CrossQueue τ) (v : Version) (rounds : Nat) (calls : List (Call τ)) : Option Callers :=
  calls.foldlM (fun w c => (w.step q v rounds c).map Prod.snd) q.callers

/-- What a call of `size()` returns. -/
def Callers.size (q : CrossQueue τ) (frontKey : Nat → Int) (w : Callers) (object : Nat) : Option (List Int) :=
  match (((w.objects object).size q frontKey none).run w.shared).1 with
  | .returned (_, sizes) => some sizes
  | _ => none

/-- The number of puts, and for each consumer the items that it has neither got nor lost to overflow. -/
structure Ledger (τ : Type) where
  puts : Nat := 0
  left : Nat → List (Bytes × τ) := fun _ => []

/-- The items that a consumer has got or lost. -/
def Ledger.gone (l : Ledger τ) (k : Nat) : Nat := l.puts - (l.left k).length

/-- A put is for every consumer, and drops the oldest item of those that have no room. A get takes the
first item of the queue's shape, and with it those in front of it. -/
def Ledger.step (q : CrossQueue τ) (l : Ledger τ) : Operation τ → Ledger τ
  | .put data timestamp =>
    { puts := l.puts + 1, left := fun k => push q.maxLength (asRead (data, timestamp)) (l.left k) }
  | .get k => { l with left := Function.update l.left k ((l.left k).dropWhile fun x => ¬ q.Shaped x.1).tail }
  | .gettime .. | .isEmpty _ => l

def CrossQueue.ledger (q : CrossQueue τ) (calls : List (Call τ)) : Ledger τ :=
  calls.foldl (fun l c => l.step q c.operation) {}

/-- The queue is as the ledger says. -/
structure Recorded (q : CrossQueue τ) (w : Callers) (l : Ledger τ) : Prop where
  sem : ∀ s, w.shared.sem s = 1
  contents : ∃ puts front, Stored q (Set.range w.objects) w.shared.mem puts front ∧ puts.length = l.puts ∧
    ∀ k < q.frontKeys, l.left k = puts.drop (front k)

variable {q : CrossQueue τ} {v : Version} {w w' : Callers} {l : Ledger τ} {objects : Set Object}
  {puts : List (Bytes × τ)} {front : Nat → Nat} {self : Object} {k : Nat}
  {st : Shared Semaphore Segment (Option Bytes)}

/-! Gets. -/

private theorem getRounds_meets (hk : k < q.frontKeys) (hsem : ∀ l, st.sem l = 1)
    (h : Stored q objects st.mem puts front)
    (hself : self ∈ objects) (rounds : Nat) :
    (Object.getRounds q v k rounds self).Meets st ⟨fun r st' => r.2.isSome → st'.sem = st.sem ∧ ∃ front',
      Stored q (insert r.1 objects) st'.mem puts front' ∧ (∀ j < q.frontKeys, j ≠ k → front' j = front j) ∧
      puts.drop (front' k) = ((puts.drop (front k)).dropWhile fun x => ¬ q.Shaped x.1).tail,
      fun _ => True, True⟩ := by
  induction rounds generalizing self objects front st with
  | zero => exact fun hsome => Bool.noConfusion hsome
  | succ rounds ih =>
    rcases (h.le k hk).eq_or_lt with hempty | hlt
    · refine (getRounds_empty_meets hk hsem h hself hempty (rounds + 1)).mono (fun r st' hnone hsome => ?_)
          (fun _ => id) id
      rw [hnone] at hsome
      cases hsome
    · rw [Object.getRounds]
      refine (getRound_meets hk hsem h hself hlt).bind (fun r st' hround => ?_) (fun _ _ => trivial) False.elim
      obtain ⟨self', item⟩ := r
      obtain ⟨hitem, hsem', hstored⟩ := hround
      have hcons := List.drop_eq_getElem_cons hlt
      by_cases hshaped : q.Shaped puts[front k].1
      · rw [if_pos hshaped] at hitem
        obtain rfl : item = some _ := hitem
        refine fun _ => ⟨hsem', _, hstored, fun j _ hj => Function.update_of_ne hj .., ?_⟩
        rw [Function.update_self, hcons, List.dropWhile_cons_of_neg (by simpa using hshaped), List.tail_cons]
      · rw [if_neg hshaped] at hitem
        obtain rfl : item = none := hitem
        refine (ih (fun l => by rw [hsem', hsem]) hstored (Set.mem_insert ..)).mono (fun r st'' hrest hsome => ?_)
          (fun _ => id) id
        obtain ⟨hsem'', front', hstored', hother, hdrop⟩ := hrest hsome
        refine ⟨hsem''.trans hsem', front', hstored'.mono (Set.insert_subset_insert (Set.subset_insert ..)),
          fun j hjk hj => (hother j hjk hj).trans (Function.update_of_ne hj ..), ?_⟩
        rw [hdrop, Function.update_self, hcons, List.dropWhile_cons_of_pos (by simpa using hshaped)]

private theorem getRounds_unknown_meets (hk : ¬ k < q.frontKeys) (hsem : ∀ l, st.sem l = 1) (rounds : Nat) :
    (Object.getRounds q v k rounds self).Meets st ⟨fun r _ => r.2 = none, fun _ => True, True⟩ := by
  cases rounds with
  | zero => rfl
  | succ rounds =>
    rw [Object.getRounds, Program.bind_eq, Object.getRound, Program.bind_eq, Object.isEmpty, Program.meets_bind,
      Program.meets_bind]
    apply meets_acquire (hsem .rear)
    rw [CrossQueue.addressKeys, Object.isEmptyLoop, CrossQueue.lockFront, if_neg hk]
    trivial

private theorem put_unfit_meets {x : Bytes × τ} (hsem : ∀ l, st.sem l = 1) (h : Stored q objects st.mem puts front)
    (hself : self ∈ objects) (hfits : ¬ x.1.length + 4 ≤ q.maxDataSize) :
    (self.put q x.1 x.2).Meets st ⟨fun _ _ => False, fun _ => True, True⟩ := by
  have htwo := q.two_le_maxLength
  have hslot : puts.length % q.maxLength < q.maxLength := Nat.mod_lt _ (by omega)
  obtain ⟨data, hdata, hdataLength⟩ := h.sized.data _ hslot
  unfold Object.put
  apply meets_acquire (hsem .rear)
  rw [Program.bind_eq, meets_readIndex, h.rear self hself]
  refine meets_openSlot hslot h.sized (meets_writeTo hdata (fun _ => trivial) fun data' hw => ?_)
  have hle := (Option.ite_none_right_eq_some.mp hw).1
  rw [List.length_append, hdataLength] at hle
  exact absurd hle hfits

/-! Completed calls. -/

theorem CrossQueue.callers_recorded (q : CrossQueue τ) : Recorded q q.callers {} := by
  refine ⟨fun _ => rfl, [], fun _ => 0, q.fresh_stored.mono ?_, rfl, fun _ _ => rfl⟩
  rintro o ⟨i, rfl⟩
  rfl

/-- A put enters the ledger, and its answer is the one of the ledger. -/
theorem Recorded.put (h : Recorded q w l) {rounds object : Nat} {data : Bytes} {timestamp : τ} {a : Answer τ}
    (hstep : w.step q v rounds ⟨object, .put data timestamp⟩ = some (a, w')) :
    Recorded q w' (l.step q (.put data timestamp)) := by
  obtain ⟨hsem, puts, front, hstored, hputs, hleft⟩ := h
  by_cases hfits : data.length + 4 ≤ q.maxDataSize
  · have hput : ((Operation.put data timestamp).method q v rounds (w.objects object)).Meets w.shared
        ⟨fun r st => st.sem = w.shared.sem ∧ ∃ front', (∀ k < q.frontKeys, front' k = pushed q puts.length (front k)) ∧
          Stored q (insert r.1 (Set.range w.objects)) st.mem (puts ++ [asRead (data, timestamp)]) front',
          fun _ => ¬ q.TextsFit, False⟩ :=
      (put_meets (x := (data, timestamp)) hsem hstored ⟨object, rfl⟩ hfits).bind (fun _ _ hput => hput) (fun _ => id) id
    obtain ⟨self, ⟨hsem', front', hfront', hstored'⟩, hobjects⟩ := returned_of_step hput hstep
    refine ⟨fun s => by rw [hsem', hsem], _, front', hobjects ▸ hstored'.mono (range_update_subset ..), ?_,
      fun k hk => ?_⟩
    · rw [List.length_append, hputs]
      rfl
    · rw [hfront' k hk, ← push_drop _ (hstored.le k hk) (hstored.room k hk), ← hleft k hk]
      rfl
  · have hput : ((Operation.put data timestamp).method q v rounds (w.objects object)).Meets w.shared
        ⟨fun _ _ => False, fun _ => True, True⟩ :=
      (put_unfit_meets (x := (data, timestamp)) hsem hstored ⟨object, rfl⟩ hfits).bind (fun _ _ => False.elim)
        (fun _ => id) id
    obtain ⟨_, hfalse, -⟩ := returned_of_step hput hstep
    exact hfalse.elim

private theorem Recorded.get (h : Recorded q w l) {rounds object : Nat} {a : Answer τ}
    (hstep : w.step q v rounds ⟨object, .get k⟩ = some (a, w')) : Recorded q w' (l.step q (.get k)) := by
  obtain ⟨hsem, puts, front, hstored, hputs, hleft⟩ := h
  by_cases hk : k < q.frontKeys
  · have hget : ((Operation.get k).method q v rounds (w.objects object)).Meets w.shared
        ⟨fun r st => r.2.isSome → st.sem = w.shared.sem ∧ ∃ front',
          Stored q (insert r.1 (Set.range w.objects)) st.mem puts front' ∧
          (∀ j < q.frontKeys, j ≠ k → front' j = front j) ∧
          puts.drop (front' k) = ((puts.drop (front k)).dropWhile fun x => ¬ q.Shaped x.1).tail,
          fun _ => True, True⟩ := by
      refine (getRounds_meets hk hsem hstored ⟨object, rfl⟩ rounds).bind (fun r st hget => ?_) (fun _ => id) id
      exact fun hsome => hget (by simpa using hsome)
    obtain ⟨self, hget, hobjects⟩ := returned_of_step hget hstep
    obtain ⟨hsem', front', hstored', hother, hdrop⟩ := hget rfl
    refine ⟨fun s => by rw [hsem', hsem], puts, front', hobjects ▸ hstored'.mono (range_update_subset ..), hputs,
      fun j hj => ?_⟩
    dsimp only [Ledger.step]
    by_cases hjk : j = k
    · subst hjk
      rw [Function.update_self, hdrop, hleft j hj]
    · rw [Function.update_of_ne hjk, hother j hj hjk, hleft j hj]
  · have hget : ((Operation.get k).method q v rounds (w.objects object)).Meets w.shared
        ⟨fun r _ => r.2 = none, fun _ => True, True⟩ :=
      (getRounds_unknown_meets hk hsem rounds).bind (fun r _ hnone => by simpa using hnone) (fun _ => id) id
    obtain ⟨_, hnone, -⟩ := returned_of_step hget hstep
    cases hnone

/-- Completed puts and gets leave the queue as the ledger says. -/
theorem CrossQueue.after_recorded {rounds : Nat} {calls : List (Call τ)} (hcalls : ∀ c ∈ calls, c.operation.Moves)
    (hrun : q.after v rounds calls = some w) : Recorded q w (q.ledger calls) := by
  induction calls using List.reverseRecOn generalizing w with
  | nil =>
    obtain rfl := Option.some.inj hrun
    exact q.callers_recorded
  | append_singleton calls c ih =>
    rw [CrossQueue.after, List.foldlM_append] at hrun
    simp only [List.foldlM_cons, List.foldlM_nil, bind_pure] at hrun
    obtain ⟨w₀, hrun₀, hlast⟩ := Option.bind_eq_some_iff.mp hrun
    obtain ⟨⟨a, w₁⟩, hstep, rfl⟩ := Option.map_eq_some_iff.mp hlast
    have hrecorded := ih (fun c hc => hcalls c (List.mem_append_left _ hc)) hrun₀
    rw [CrossQueue.ledger, List.foldl_append]
    obtain ⟨object, operation⟩ := c
    have hmoves := hcalls _ (List.mem_append_right _ (List.mem_singleton_self _))
    cases operation with
    | put data timestamp => exact hrecorded.put hstep
    | get k => exact hrecorded.get hstep
    | gettime k top => exact hmoves.elim
    | isEmpty k => exact hmoves.elim

/-! `size`. -/

/-- The indices of a key are read as they are stored. -/
theorem readIndices_meets (hk : k < q.frontKeys) (hsem : ∀ l, st.sem l = 1) (h : Stored q objects st.mem puts front)
    (hself : self ∈ objects) :
    (self.readIndices q k).Meets st ⟨fun self' st' => st' = st ∧
      self' = { self.setFront k (front k % q.maxLength) with rear := puts.length % q.maxLength },
      fun _ => False, False⟩ := by
  unfold Object.readIndices
  apply meets_lockFront hk (hsem _)
  rw [Program.bind_eq, meets_readIndex, h.fronts self hself k hk, Program.bind_eq, meets_release]
  apply meets_acquire (by simp [hsem])
  rw [Program.bind_eq, meets_readIndex, h.rear self hself, Program.bind_eq, meets_release]
  refine ⟨restored hsem fun l => ?_, rfl⟩
  simp +contextual [Function.update_apply, hsem]

/-- The loop of `size` caches the rear and the fronts of its keys. -/
theorem sizeLoop_meets {keys : List Nat} (hkeys : ∀ k ∈ keys, k < q.frontKeys) (hsem : ∀ l, st.sem l = 1)
    (h : Stored q objects st.mem puts front) (hself : self ∈ objects) :
    (Object.sizeLoop q keys self).Meets st ⟨fun self' _ =>
      self'.rear = (if keys = [] then self.rear else puts.length % q.maxLength) ∧
      (∀ k ∈ keys, self'.fronts k = front k % q.maxLength) ∧ ∀ k, k ∉ keys → self'.fronts k = self.fronts k,
      fun _ => False, False⟩ := by
  induction keys generalizing objects self with
  | nil => exact ⟨rfl, fun _ hk => absurd hk List.not_mem_nil, fun _ _ => rfl⟩
  | cons k keys ih =>
    have hk := hkeys k (List.mem_cons_self ..)
    refine (readIndices_meets hk hsem h hself).bind (fun self' st' hread => ?_) (fun _ => False.elim) False.elim
    obtain ⟨rfl, rfl⟩ := hread
    refine (ih (fun j hj => hkeys j (List.mem_cons_of_mem k hj)) (h.cacheIndices hself hk) (Set.mem_insert ..)).mono
      (fun self' st'' hrest => ?_) (fun _ => id) id
    obtain ⟨hrear, hfronts, hothers⟩ := hrest
    refine ⟨?_, fun j hj => ?_, fun j hj => ?_⟩
    · rw [hrear, if_neg (List.cons_ne_nil k keys), ite_self]
    · by_cases hmem : j ∈ keys
      · exact hfronts j hmem
      · obtain rfl : j = k := (List.mem_cons.mp hj).resolve_right hmem
        rw [hothers j hmem]
        exact Function.update_self ..
    · rw [List.mem_cons, not_or] at hj
      rw [hothers j hj.2]
      exact Function.update_of_ne hj.1 ..

private theorem distance_iff {n f M : Nat} (hle : f ≤ n) (hroom : n + 1 ≤ f + M) (key : Int) :
    (((n % M : Nat) : Int) - key + M) % M = ((n - f : Nat) : Int) ↔ key % M = (f : Int) % M := by
  have hshort : ((n - f : Nat) : Int) = ((n : Int) - f) % M := by
    rw [Int.emod_eq_of_lt (by omega) (by omega)]
    omega
  have hrear : (((n % M : Nat) : Int) - key + M) % M = ((n : Int) - key) % M := by
    rw [Int.natCast_mod, Int.add_emod_right, Int.sub_emod, Int.emod_emod, ← Int.sub_emod]
  rw [hshort, hrear]
  constructor
  · intro h
    have hmod : (n : Int) + -key ≡ n + -f [ZMOD M] := h
    exact Int.neg_modEq_neg.mp (Int.ModEq.add_left_cancel' n hmod)
  · intro h
    exact Int.ModEq.sub_left n h

/-- For a single key `size` returns what is left; for several it measures from the keys. -/
theorem Recorded.size_eq (h : Recorded q w l) (hkeys : 0 < q.frontKeys) (frontKey : Nat → Int) (object : Nat) :
    w.size q frontKey object = some ((List.range q.frontKeys).map fun k =>
      if q.frontKeys = 1 then ((l.left k).length : Int)
      else (((l.puts % q.maxLength : Nat) : Int) - frontKey k + q.maxLength) % q.maxLength) := by
  obtain ⟨hsem, puts, front, hstored, hputs, hleft⟩ := h
  have hrange : ∀ k ∈ List.range q.frontKeys, k < q.frontKeys := fun k => List.mem_range.mp
  have hmeets : ((w.objects object).size q frontKey none).Meets w.shared ⟨fun r _ => r.2 =
      (List.range q.frontKeys).map (fun k => if q.frontKeys = 1 then ((l.left k).length : Int)
        else (((l.puts % q.maxLength : Nat) : Int) - frontKey k + q.maxLength) % q.maxLength),
      fun _ => False, False⟩ := by
    refine (sizeLoop_meets hrange hsem hstored ⟨object, rfl⟩).bind (fun self _ hloop => ?_) (fun _ => id) id
    obtain ⟨hrear, hfronts, -⟩ := hloop
    rw [if_neg (by simpa using hkeys.ne'), hputs] at hrear
    rw [Program.meets_done, hrear]
    by_cases hone : q.frontKeys = 1
    · have hdistance := (distance_iff (hstored.le 0 hkeys) (hstored.room 0 hkeys) (front 0 % q.maxLength : Nat)).mpr
        (by simp)
      have hlength : (l.left 0).length = puts.length - front 0 := by rw [hleft 0 hkeys, List.length_drop]
      simp only [hone, List.range_one, List.map_cons, List.map_nil, if_true]
      rw [hfronts 0 (List.mem_range.mpr hkeys), hlength, ← hputs, hdistance]
    · obtain ⟨n, hn⟩ : ∃ n, q.frontKeys = n + 2 := ⟨q.frontKeys - 2, by omega⟩
      have hne : ¬ n + 2 = 1 := by omega
      simp only [hn, hne, if_false]
  unfold Callers.size
  rcases hmeets.ending with ⟨r, st, hrun, hsizes⟩ | ⟨_, _, hraised⟩ | ⟨_, _, hblocked⟩
  · rw [hrun]
    exact congrArg some hsizes
  · exact hraised.elim
  · exact hblocked.elim

/-- `size` returns for each consumer how many items are left for it exactly if there is one consumer, or each key is,
modulo the length of the ring, the number of items that its consumer has got or lost. -/
theorem size_left_iff (q : CrossQueue τ) (v : Version) (frontKey : Nat → Int) (hkeys : 0 < q.frontKeys)
    {calls : List (Call τ)} (hcalls : ∀ c ∈ calls, c.operation.Moves) {rounds : Nat} {w : Callers}
    (hrun : q.after v rounds calls = some w) (object : Nat) :
    w.size q frontKey object = some ((List.range q.frontKeys).map fun k => (((q.ledger calls).left k).length : Int)) ↔
      q.frontKeys = 1 ∨ ∀ k < q.frontKeys, frontKey k % q.maxLength = ((q.ledger calls).gone k : Int) % q.maxLength := by
  have hrecorded := q.after_recorded hcalls hrun
  rw [hrecorded.size_eq hkeys, Option.some_inj, List.map_inj_left]
  by_cases hone : q.frontKeys = 1
  · exact iff_of_true (fun k _ => if_pos hone) (.inl hone)
  · rw [or_iff_right hone]
    obtain ⟨-, puts, front, hstored, hputs, hleft⟩ := hrecorded
    apply forall_congr'
    intro k
    rw [List.mem_range]
    apply imp_congr_right
    intro hk
    have hle := hstored.le k hk
    have hroom := hstored.room k hk
    have hlength : ((q.ledger calls).left k).length = puts.length - front k := by rw [hleft k hk, List.length_drop]
    have hgone : (q.ledger calls).gone k = front k := by
      rw [Ledger.gone, hlength, ← hputs]
      omega
    rw [if_neg hone, hlength, hgone, ← hputs]
    exact distance_iff hle hroom (frontKey k)

end

/-- The ids of two applications. -/
def appKeys (k : Nat) : Int := 10101 + k

/-- One put, and the get of the first consumer. -/
def putThenGet (timestamp : τ) : List (Call τ) := [⟨0, .put [1] timestamp⟩, ⟨1, .get 0⟩]

/-- The keys have the remainders 1 and 0, as many items as the two consumers have got. -/
theorem size_left_iff_putThenGet :
    ∃ w, (twoSlots 2).after .cross 1 (putThenGet 1) = some w ∧
      w.size (twoSlots 2) appKeys 0 =
        some ((List.range 2).map fun k => ((((twoSlots 2).ledger (putThenGet 1)).left k).length : Int)) := by
  have hsome : ((twoSlots 2).after .cross 1 (putThenGet 1)).isSome = true := by decide +kernel
  obtain ⟨w, hw⟩ := Option.isSome_iff_exists.mp hsome
  have hkeys : ∀ k < (twoSlots 2).frontKeys,
      appKeys k % (twoSlots 2).maxLength = (((twoSlots 2).ledger (putThenGet 1)).gone k : Int) %
        (twoSlots 2).maxLength := by
    decide +kernel
  exact ⟨w, hw, (size_left_iff (twoSlots 2) .cross appKeys Nat.two_pos (by decide) hw 0).mpr (.inr hkeys)⟩

/-- After one put an item is left for either consumer, and 0 and 1 are returned. -/
theorem not_size_left_onePut :
    appKeys 0 ≠ appKeys 1 ∧
      ((twoSlots 2).after .cross 1 [⟨0, .put [1] 1⟩]).bind (fun w => w.size (twoSlots 2) appKeys 0) = some [0, 1] ∧
      ¬ ((twoSlots 2).after .cross 1 [⟨0, .put [1] 1⟩]).bind (fun w => w.size (twoSlots 2) appKeys 0) =
        some ((List.range 2).map fun k => ((((twoSlots 2).ledger [⟨0, .put [1] 1⟩]).left k).length : Int)) := by
  refine ⟨by decide, by decide +kernel, by decide +kernel⟩

end Soar.Computing
