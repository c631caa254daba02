import Soar.Library.AnsweringRun
import Soar.Computing.MethodSpecs
import Soar.Computing.ConsumerCorrectness

/-! Calls one after another on a fresh queue answer as one bounded list for each front key does. -/
namespace Soar.Computing
open Soar.Library

inductive Operation (τ : Type)
  | put (data : Bytes) (timestamp : τ)
  | get (k : Nat)
  | gettime (k top : Nat)
  | isEmpty (k : Nat)
  deriving DecidableEq

inductive Answer (τ : Type)
  | done
  | item (data : Bytes) (timestamp : τ)
  | times (times : List τ)
  | empty (empty : Bool)
  deriving DecidableEq

section Fifo

variable {τ : Type}

/-- A put into a list of at most `maxLength - 1` entries, which drops the oldest to stay within them. -/
def push {α : Type} (maxLength : Nat) (x : α) (queue : List α) : List α :=
  (if maxLength - 1 < queue.length + 1 then queue.tail else queue) ++ [x]

/-- A list for each front key. A `get` waits at an empty one. -/
def fifoStep (maxLength : Nat) (queues : Nat → List (Bytes × τ)) :
    Operation τ → Option (Answer τ × (Nat → List (Bytes × τ)))
  | .put data timestamp => some (.done, fun k => push maxLength (data, timestamp) (queues k))
  | .get k =>
    match queues k with
    | [] => none
    | x :: rest => some (.item x.1 x.2, Function.update queues k rest)
  | .gettime k top => some (.times (((queues k).take top).map Prod.snd), queues)
  | .isEmpty k => some (.empty (queues k).isEmpty, queues)

end Fifo

section
variable {τ : Type}

/-- A call of the object `object`: the producer and the consumers have one each. -/
structure Call (τ : Type) where
  object : Nat
  operation : Operation τ
  deriving DecidableEq

structure Callers where
  objects : Nat → Object
  shared : Shared Semaphore Segment (Option Bytes)

def CrossQueue.callers (q : CrossQueue τ) : Callers := ⟨fun _ => {}, q.fresh⟩

def Operation.method (q : CrossQueue τ) (v : Version) (rounds : Nat) (self : Object) :
    Operation τ → Method (Object × Option (Answer τ))
  | .put data timestamp => do
    let self ← self.put q data timestamp
    .done (self, some .done)
  | .get k => do
    let (self, item) ← self.get q v (some k) rounds
    .done (self, item.map fun x => .item x.1 x.2)
  | .gettime k top => do
    let (self, times) ← self.gettime q (some k) top
    .done (self, some (.times times))
  | .isEmpty k => do
    let (self, empty) ← self.isEmpty q (some k)
    .done (self, some (.empty empty))

/-- A call runs to its end, alone. -/
def Callers.step (q : CrossQueue τ) (v : Version) (rounds : Nat) (w : Callers) (c : Call τ) :
    Option (Answer τ × Callers) :=
  match (c.operation.method q v rounds (w.objects c.object)).run w.shared with
  | (.returned (self, some answer), shared) => some (answer, ⟨Function.update w.objects c.object self, shared⟩)
  | _ => none

/-- What the calls return, if all of them do. -/
def CrossQueue.perform (q : CrossQueue τ) (v : Version) (rounds : Nat) (calls : List (Call τ)) :
    Option (List (Answer τ)) :=
  answers (Callers.step q v rounds) q.callers calls

/-- What the lists return. -/
def CrossQueue.fifo (q : CrossQueue τ) (calls : List (Call τ)) : Option (List (Answer τ)) :=
  answers (fun queues c => fifoStep q.maxLength queues c.operation) (fun _ => []) calls

/-- A payload fits, has the shape and is free of the sentinel, and a key is one of the queue's. -/
def Operation.Proper (q : CrossQueue τ) : Operation τ → Prop
  | .put data _ => data.length + 4 ≤ q.maxDataSize ∧ q.Shaped data ∧ SentinelFree data
  | .get k | .gettime k _ | .isEmpty k => k < q.frontKeys

instance (q : CrossQueue τ) : (operation : Operation τ) → Decidable (operation.Proper q)
  | .put .. => instDecidableAnd
  | .get _ | .gettime .. | .isEmpty _ => Nat.decLt ..

/-- The queue holds what the lists do. -/
structure Represents (q : CrossQueue τ) (w : Callers) (queues : Nat → List (Bytes × τ)) : Prop where
  sem : ∀ l, w.shared.sem l = 1
  contents : ∃ puts front, Stored q (Set.range w.objects) w.shared.mem puts front ∧ (∀ x ∈ puts, q.Shaped x.1) ∧
    ∀ k < q.frontKeys, queues k = puts.drop (front k)

/-- The new queue represents empty queues of all keys. -/
theorem CrossQueue.callers_represents (q : CrossQueue τ) : Represents q q.callers fun _ => [] := by
  refine ⟨fun _ => rfl, [], fun _ => 0, q.fresh_stored.mono ?_, nofun, fun _ _ => rfl⟩
  rintro o ⟨i, rfl⟩
  rfl

variable {q : CrossQueue τ} {v : Version} {w : Callers} {queues : Nat → List (Bytes × τ)}

/-- The method returns the answer and leaves the queue with what `queues'` holds. -/
def Answers (q : CrossQueue τ) (w : Callers) (object : Nat) (a : Answer τ) (queues' : Nat → List (Bytes × τ))
    (method : Method (Object × Option (Answer τ))) : Prop :=
  method.Meets w.shared ⟨fun r st => r.2 = some a ∧ Represents q ⟨Function.update w.objects object r.1, st⟩ queues',
    fun _ => ¬ q.TextsFit, False⟩

private theorem step_of_answers {rounds : Nat} {c : Call τ} {a : Answer τ} {queues' : Nat → List (Bytes × τ)}
    (h : Answers q w c.object a queues' (c.operation.method q v rounds (w.objects c.object))) :
    (∃ w', w.step q v rounds c = some (a, w') ∧ Represents q w' queues') ∨ w.step q v rounds c = none ∧
      ¬ q.TextsFit := by
  unfold Callers.step
  rcases Program.Meets.ending h with ⟨⟨self, answer⟩, st, hrun, rfl, hrepresents⟩ | ⟨st, hrun, hraised⟩ |
      ⟨_, _, hblocked⟩
  · rw [hrun]
    exact .inl ⟨_, rfl, hrepresents⟩
  · rw [hrun]
    exact .inr ⟨rfl, hraised⟩
  · exact hblocked.elim

/-- What a call that completes has returned. -/
theorem returned_of_step {w' : Callers} {rounds : Nat} {c : Call τ} {a : Answer τ}
    {post : Post Semaphore Segment (Option Bytes) (Object × Option (Answer τ))}
    (h : (c.operation.method q v rounds (w.objects c.object)).Meets w.shared post)
    (hstep : w.step q v rounds c = some (a, w')) :
    ∃ self, post.returned (self, some a) w'.shared ∧ w'.objects = Function.update w.objects c.object self := by
  unfold Callers.step at hstep
  rcases h.ending with ⟨⟨self, answer⟩, st, hrun, hpost⟩ | ⟨st, hrun, -⟩ | ⟨st, hrun, -⟩
  · rw [hrun] at hstep
    cases answer with
    | none => cases hstep
    | some answer =>
      obtain ⟨rfl, rfl⟩ := Prod.mk.inj (Option.some.inj hstep)
      exact ⟨self, hpost, rfl⟩
  · rw [hrun] at hstep
    cases hstep
  · rw [hrun] at hstep
    cases hstep

/-- The objects after a call of one of them. -/
theorem range_update_subset (objects : Nat → Object) (i : Nat) (self : Object) :
    Set.range (Function.update objects i self) ⊆ insert self (Set.range objects) := by
  rintro o ⟨j, rfl⟩
  rw [Function.update_apply]
  split_ifs
  · exact Set.mem_insert ..
  · exact Set.mem_insert_of_mem _ ⟨j, rfl⟩

private theorem represents_of_stored {i : Nat} {self : Object} {st : Shared Semaphore Segment (Option Bytes)}
    {puts : List (Bytes × τ)} {front : Nat → Nat} (hsem : st.sem = w.shared.sem) (hone : ∀ l, w.shared.sem l = 1)
    (h : Stored q (insert self (Set.range w.objects)) st.mem puts front) (hshaped : ∀ x ∈ puts, q.Shaped x.1)
    (hqueues : ∀ k < q.frontKeys, queues k = puts.drop (front k)) :
    Represents q ⟨Function.update w.objects i self, st⟩ queues :=
  ⟨fun l => by rw [hsem, hone], puts, front, h.mono (range_update_subset ..), hshaped, hqueues⟩

/-- A put drops the oldest entry where it pushes the front. -/
theorem push_drop {puts : List (Bytes × τ)} {n : Nat} (x : Bytes × τ) (hle : n ≤ puts.length)
    (hroom : puts.length + 1 ≤ n + q.maxLength) :
    push q.maxLength x (puts.drop n) = (puts ++ [x]).drop (pushed q puts.length n) := by
  have htwo := q.two_le_maxLength
  unfold push pushed
  rw [List.length_drop]
  by_cases hfull : puts.length + 1 = n + q.maxLength
  · rw [if_pos (by omega), if_pos hfull, List.tail_drop, List.drop_append_of_le_length (by omega)]
  · rw [if_neg (by omega), if_neg hfull, List.drop_append_of_le_length hle]

private theorem cons_eq_drop {puts rest : List (Bytes × τ)} {x : Bytes × τ} {n : Nat} (h : x :: rest = puts.drop n) :
    ∃ hlt : n < puts.length, x = puts[n] ∧ rest = puts.drop (n + 1) := by
  have hlt : n < puts.length := by
    by_contra hge
    rw [List.drop_eq_nil_of_le (by omega)] at h
    cases h
  rw [List.drop_eq_getElem_cons hlt] at h
  exact ⟨hlt, List.cons.inj h⟩

private theorem isEmpty_drop {puts : List (Bytes × τ)} {n : Nat} (hle : n ≤ puts.length) :
    decide (n = puts.length) = (puts.drop n).isEmpty := by
  rw [Bool.eq_iff_iff, decide_eq_true_iff, List.isEmpty_iff, List.drop_eq_nil_iff]
  exact ⟨fun h => h.ge, fun h => le_antisymm hle h⟩

/-- A put is a push to the queue of every key. -/
theorem Represents.put (h : Represents q w queues) (object rounds : Nat) {data : Bytes} {timestamp : τ}
    (hproper : (Operation.put data timestamp).Proper q) :
    Answers q w object .done (fun k => push q.maxLength (data, timestamp) (queues k))
      ((Operation.put data timestamp).method q v rounds (w.objects object)) := by
  obtain ⟨hsem, puts, front, hstored, hshaped, hqueues⟩ := h
  obtain ⟨hfits, hdata, hclean⟩ := hproper
  refine (put_meets (x := (data, timestamp)) hsem hstored ⟨object, rfl⟩ hfits).bind (fun self st hput => ?_)
      (fun _ => id) id
  rw [asRead_eq hclean] at hput
  obtain ⟨hsem', front', hfront', hstored'⟩ := hput
  refine ⟨rfl, represents_of_stored hsem' hsem hstored' (fun x hx => ?_) fun k hk => ?_⟩
  · rcases List.mem_append.mp hx with hx | hx
    · exact hshaped x hx
    · rw [List.mem_singleton.mp hx]
      exact hdata
  · rw [hqueues k hk, hfront' k hk]
    exact push_drop _ (hstored.le k hk) (hstored.room k hk)

/-- The head of a list that is not empty. -/
theorem Represents.get (h : Represents q w queues) (object rounds : Nat) {k : Nat} (hk : k < q.frontKeys)
    {x : Bytes × τ}
    {rest : List (Bytes × τ)} (hcons : queues k = x :: rest) :
    Answers q w object (.item x.1 x.2) (Function.update queues k rest)
      ((Operation.get k).method q v (rounds + 1) (w.objects object)) := by
  obtain ⟨hsem, puts, front, hstored, hshaped, hqueues⟩ := h
  obtain ⟨hlt, hx, hrest⟩ := cons_eq_drop (hcons.symm.trans (hqueues k hk))
  have hitem : q.Shaped puts[front k].1 := hshaped _ (List.getElem_mem hlt)
  refine (get_meets hk hsem hstored ⟨object, rfl⟩ hlt hitem rounds).bind (fun r st hget => ?_) (fun _ => id) id
  obtain ⟨self, item⟩ := r
  obtain ⟨rfl, hsem', hstored'⟩ := hget
  refine ⟨by rw [hx]; rfl, represents_of_stored hsem' hsem hstored' hshaped fun j hj => ?_⟩
  rw [Function.update_apply, Function.update_apply]
  split_ifs
  · exact hrest
  · exact hqueues j hj

/-- `gettime` answers with the times of the first items. -/
theorem Represents.gettime (h : Represents q w queues) (object rounds : Nat) {k : Nat} (hk : k < q.frontKeys)
    (top : Nat) :
    Answers q w object (.times (((queues k).take top).map Prod.snd)) queues
      ((Operation.gettime k top).method q v rounds (w.objects object)) := by
  obtain ⟨hsem, puts, front, hstored, hshaped, hqueues⟩ := h
  refine (gettime_meets hk hsem hstored ⟨object, rfl⟩ top).bind (fun r st htimes => ?_) (fun _ => False.elim) id
  obtain ⟨self, times⟩ := r
  obtain ⟨rfl, hstored', rfl⟩ := htimes
  refine ⟨?_, represents_of_stored rfl hsem hstored' hshaped hqueues⟩
  rw [hqueues k hk]

/-- `isEmpty` answers whether the queue of the key is empty. -/
theorem Represents.isEmpty (h : Represents q w queues) (object rounds : Nat) {k : Nat} (hk : k < q.frontKeys) :
    Answers q w object (.empty (queues k).isEmpty) queues
      ((Operation.isEmpty k).method q v rounds (w.objects object)) := by
  obtain ⟨hsem, puts, front, hstored, hshaped, hqueues⟩ := h
  refine (isEmpty_meets hk hsem hstored ⟨object, rfl⟩).bind (fun r st hchecked => ?_) (fun _ => False.elim) id
  obtain ⟨self, empty⟩ := r
  obtain ⟨rfl, -, hstored', hempty⟩ := hchecked
  refine ⟨congrArg (fun e => some (Answer.empty e)) ?_, represents_of_stored rfl hsem hstored' hshaped hqueues⟩
  rw [hqueues k hk]
  exact hempty.trans <| isEmpty_drop (hstored.le k hk)

/-- A call answers as the lists do, unless a text does not fit. -/
theorem Represents.step (h : Represents q w queues) (rounds : Nat) {c : Call τ} (hproper : c.operation.Proper q)
    {a : Answer τ} {queues' : Nat → List (Bytes × τ)}
      (hfifo : fifoStep q.maxLength queues c.operation = some (a, queues')) :
    (∃ w', w.step q v (rounds + 1) c = some (a, w') ∧ Represents q w' queues') ∨
      w.step q v (rounds + 1) c = none ∧ ¬ q.TextsFit := by
  apply step_of_answers
  obtain ⟨object, operation⟩ := c
  cases operation with
  | put data timestamp =>
    obtain ⟨rfl, rfl⟩ := Prod.mk.inj (Option.some.inj hfifo)
    exact h.put object _ hproper
  | get k =>
    dsimp only [fifoStep] at hfifo
    cases hcons : queues k with
    | nil =>
      rw [hcons] at hfifo
      cases hfifo
    | cons x rest =>
      rw [hcons] at hfifo
      obtain ⟨rfl, rfl⟩ := Prod.mk.inj (Option.some.inj hfifo)
      exact h.get object rounds hproper hcons
  | gettime k top =>
    obtain ⟨rfl, rfl⟩ := Prod.mk.inj (Option.some.inj hfifo)
    exact h.gettime object _ hproper top
  | isEmpty k =>
    obtain ⟨rfl, rfl⟩ := Prod.mk.inj (Option.some.inj hfifo)
    exact h.isEmpty object _ hproper

/-- The queue is one list for each front key: completed calls return what the lists do, and where the texts
of the indices and timestamps fit, the calls complete. -/
theorem perform_eq_fifo (q : CrossQueue τ) (v : Version) (calls : List (Call τ))
    (hproper : ∀ c ∈ calls, c.operation.Proper q) {as : List (Answer τ)} (hfifo : q.fifo calls = some as)
      (rounds : Nat) :
    (∀ as', q.perform v (rounds + 1) calls = some as' → as' = as) ∧
      (q.TextsFit → q.perform v (rounds + 1) calls = some as) := by
  have hrefined : q.perform v (rounds + 1) calls = some as ∨ q.perform v (rounds + 1) calls = none ∧ ¬ q.TextsFit :=
    answers_refine (fun _ _ _ _ _ hrepresents hproper hfifo => hrepresents.step rounds hproper hfifo) hproper
      q.callers_represents hfifo
  rcases hrefined with hsome | ⟨hnone, hunfit⟩
  · refine ⟨fun as' h => ?_, fun _ => hsome⟩
    exact Option.some.inj (h.symm.trans hsome)
  · refine ⟨fun as' h => ?_, fun hfit => absurd hfit hunfit⟩
    rw [hnone] at h
    cases h

end

theorem textsFit_twoSlots (keys : Nat) : (twoSlots keys).TextsFit := by
  refine ⟨fun i hi => ?_, fun t => ?_⟩
  · have hi : i < 10 ^ 1 := lt_trans hi (by decide : 2 < 10 ^ 1)
    have hlength := length_str_le Nat.one_pos hi
    omega
  · have ht : t.val < 10 ^ 16 := lt_trans t.isLt (by decide)
    have hlength := length_str_le (by decide) ht
    rw [show (twoSlots keys).timestamp.str t = str t ++ [46, 48] from rfl, List.length_append]
    simp only [List.length_cons, List.length_nil]
    omega

/-- The second put drops the first item for both keys. -/
theorem perform_eq_fifo_twoSlots :
    (twoSlots 2).perform .cross 1 [⟨0, .put [0] 0⟩, ⟨0, .put [1] 1⟩, ⟨1, .isEmpty 0⟩, ⟨2, .gettime 1 5⟩, ⟨1, .get 0⟩,
      ⟨1, .isEmpty 0⟩] = some [.done, .done, .empty false, .times [1], .item [1] 1, .empty true] := by
  exact (perform_eq_fifo (twoSlots 2) .cross _ (by decide) rfl 0).2 (textsFit_twoSlots 2)

end Soar.Computing
