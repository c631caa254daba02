import Soar.Computing.RingContents

/-! What a call does to a queue that no other call uses at the time. A write of a text that does not
fit into its segment is the only thing that can raise. -/
namespace Soar.Computing
open Soar.Library Method

section
variable {α τ : Type} {q : CrossQueue τ} {st : Shared Semaphore Segment (Option Bytes)}
  {post : Post Semaphore Segment (Option Bytes) α}

/-! The rules for the steps of the methods. -/

/-- The rule for a semaphore that is free. -/
theorem meets_acquire {l : Semaphore} {f : Unit → Method α} (hsem : st.sem l = 1)
    (h : (f ()).Meets { st with sem := Function.update st.sem l 0 } post) : ((acquire l).bind f).Meets st post := by
  refine Program.meets_acquire (fun hzero => ?_) fun _ => ?_
  · rw [hsem] at hzero
    cases hzero
  · rw [hsem]
    exact h

theorem meets_lockFront {k : Nat} {f : Unit → Method α} (hk : k < q.frontKeys) (hsem : st.sem (.front k) = 1)
    (h : (f ()).Meets { st with sem := Function.update st.sem (.front k) 0 } post) :
    ((q.lockFront k).bind f).Meets st post := by
  rw [CrossQueue.lockFront, if_pos hk]
  exact meets_acquire hsem h

/-- The rule for a semaphore that is given back. -/
theorem meets_release {l : Semaphore} {f : Unit → Method α} :
    ((release l).bind f).Meets st post ↔
      (f ()).Meets { st with sem := Function.update st.sem l (st.sem l + 1) } post := Iff.rfl

theorem meets_readIndex {cached : Nat} {s : Segment} {f : Nat → Method α} :
    ((readIndex cached s).bind f).Meets st post ↔ (f ((st.mem s).elim cached (readInt cached))).Meets st post := Iff.rfl

theorem meets_attach {s : Segment} {f : Unit → Method α} {memory : Bytes} (hmem : st.mem s = some memory)
    (h : (f ()).Meets st post) : ((attach s).bind f).Meets st post := by
  unfold attach
  rw [Program.bind, Program.meets_read, hmem]
  exact h

theorem meets_readFrom {s : Segment} {f : Bytes → Method α} {memory : Bytes} (hmem : st.mem s = some memory)
    (h : (f (readFromMemory memory)).Meets st post) : ((readFrom s).bind f).Meets st post := by
  unfold readFrom
  rw [Program.bind, Program.meets_read, hmem]
  exact h

theorem meets_writeTo {s : Segment} {text : Bytes} {f : Unit → Method α} {memory : Bytes}
    (hmem : st.mem s = some memory)
    (hraised : writeToMemory text memory = none → post.raised st)
    (hwritten : ∀ memory', writeToMemory text memory = some memory' →
      (f ()).Meets { st with mem := Function.update st.mem s (some memory') } post) :
    ((writeTo s text).bind f).Meets st post := by
  refine Program.meets_write (fun hnone => hraised ?_) fun b hb => ?_
  · simpa [hmem] using hnone
  · rw [hmem] at hb
    obtain ⟨memory', hw, rfl⟩ := Option.map_eq_some_iff.mp hb
    exact hwritten memory' hw

theorem meets_openSlot {i : Nat} {f : Unit → Method α} (hi : i < q.maxLength) (hsized : Sized q st.mem)
    (h : (f ()).Meets st post) : ((q.openSlot i).bind f).Meets st post := by
  obtain ⟨data, hdata, -⟩ := hsized.data i hi
  obtain ⟨time, htime, -⟩ := hsized.time i hi
  rw [CrossQueue.openSlot, if_pos hi, Program.meets_bind]
  apply meets_attach hdata
  unfold attach
  rw [Program.meets_read, htime]
  exact h

theorem meets_readTime {i : Nat} {f : τ → Method α} {x : Bytes × τ} (hslot : SlotHolds q st.mem i x)
    (h : (f x.2).Meets st post) : ((q.readTime i).bind f).Meets st post := by
  obtain ⟨memory, hmem, htime⟩ := hslot.time
  rw [CrossQueue.readTime, Program.bind_eq, Program.meets_bind]
  apply meets_readFrom hmem
  rw [htime]
  exact h

theorem meets_readSlot {i : Nat} {f : Bytes × τ → Method α} {x : Bytes × τ} (hi : i < q.maxLength)
    (hsized : Sized q st.mem) (hslot : SlotHolds q st.mem i x) (hraised : ¬ q.itemsize ∣ x.1.length → post.raised st)
    (h : q.itemsize ∣ x.1.length → (f x).Meets st post) : ((q.readSlot i).bind f).Meets st post := by
  obtain ⟨memory, hmem, hdata⟩ := hslot.data
  rw [CrossQueue.readSlot, Program.meets_bind]
  refine meets_openSlot hi hsized (meets_readFrom hmem ?_)
  rw [hdata]
  split_ifs with hitems
  · exact meets_readTime hslot (h hitems)
  · exact hraised hitems

end

section
variable {τ : Type} {q : CrossQueue τ} {objects : Set Object} {puts : List (Bytes × τ)} {front : Nat → Nat}
  {self : Object} {k : Nat}

/-- The position of a front after a put: one further if the ring was full. -/
def pushed (q : CrossQueue τ) (n front : Nat) : Nat := if n + 1 = front + q.maxLength then front + 1 else front

private theorem not_textsFit {i : Nat} {memory : Bytes} (hlength : memory.length = 32)
    (hnone : writeToMemory (str (i % q.maxLength)) memory = none) : ¬ q.TextsFit := by
  intro hfits
  have htwo := q.two_le_maxLength
  have hindex := hfits.1 (i % q.maxLength) (Nat.mod_lt _ (by omega))
  have hlong := writeToMemory_eq_none hnone
  omega

private theorem update_back {sem : Semaphore → Nat} {l : Semaphore} (hsem : sem l = 1) (n : Nat) (hn : n = 1) :
    Function.update (Function.update sem l 0) l n = sem := by
  rw [Function.update_idem, hn, ← hsem, Function.update_eq_self]

private theorem full_iff_positions (hle : ∀ k < q.frontKeys, front k ≤ puts.length)
    (hroom : ∀ k < q.frontKeys, puts.length + 1 ≤ front k + q.maxLength) (hk : k < q.frontKeys) :
    (puts.length % q.maxLength + 1) % q.maxLength = front k % q.maxLength ↔
      puts.length + 1 = front k + q.maxLength := by
  rw [Nat.mod_add_mod]
  refine ⟨fun heq => ?_, fun heq => ?_⟩
  · by_contra hne
    have hlow := hle k hk
    have hhigh := hroom k hk
    exact mod_ne_of_window (a := front k) (b := puts.length + 1) (by omega) (by omega) heq.symm
  · rw [heq, Nat.add_mod_right]

theorem putFront_meets {st : Shared Semaphore Segment (Option Bytes)} (hk : k < q.frontKeys)
    (hsem : st.sem (.front k) = 1) (h : Stored q objects st.mem puts front) (hself : self ∈ objects)
    (hrear : self.rear = puts.length % q.maxLength) :
    (self.putFront q k).Meets st ⟨fun self' st' => st'.sem = st.sem ∧ self'.rear = self.rear ∧
      Stored q (insert self' objects) st'.mem puts (Function.update front k (pushed q puts.length (front k))) ∧
      ∀ i x, SlotHolds q st.mem i x → SlotHolds q st'.mem i x, fun _ => ¬ q.TextsFit, False⟩ := by
  obtain ⟨memory, hmem, hlength⟩ := h.sized.front k hk
  unfold Object.putFront
  apply meets_lockFront hk hsem
  rw [Program.bind_eq, meets_readIndex, h.fronts self hself k hk, hrear]
  simp only [full_iff_positions h.le h.room hk]
  split_ifs with hfull
  · refine meets_writeTo hmem (not_textsFit hlength) fun memory' hw => ?_
    rw [Program.bind_eq, meets_release]
    refine ⟨update_back hsem _ (by simp), hrear ▸ rfl, ?_, fun i x hx => ?_⟩
    · have htwo := q.two_le_maxLength
      have hmoved := h.moveFront hk (by omega) hmem hw
      have hcached := hmoved.cacheFront hself hk
      rw [pushed, if_pos hfull]
      rwa [Function.update_self, ← Nat.mod_add_mod] at hcached
    · exact hx.updateIndex nofun nofun
  · rw [Program.bind_eq, meets_release]
    refine ⟨update_back hsem _ (by simp), hrear, ?_, fun i x hx => hx⟩
    rw [pushed, if_neg hfull, Function.update_eq_self]
    exact h.cacheFront hself hk

/-- The loop of `put` pushes the fronts of its keys and no others. -/
theorem putFronts_meets {keys : List Nat} {objects : Set Object} {self : Object} {front : Nat → Nat}
    {st : Shared Semaphore Segment (Option Bytes)} (hkeys : ∀ k ∈ keys, k < q.frontKeys) (hnodup : keys.Nodup)
    (hsem : ∀ k ∈ keys, st.sem (.front k) = 1) (h : Stored q objects st.mem puts front) (hself : self ∈ objects)
    (hrear : self.rear = puts.length % q.maxLength) :
    (Object.putFronts q keys self).Meets st ⟨fun self' st' => st'.sem = st.sem ∧ self'.rear = self.rear ∧
      Stored q (insert self' objects) st'.mem puts
        (fun k => if k ∈ keys then pushed q puts.length (front k) else front k) ∧
      ∀ i x, SlotHolds q st.mem i x → SlotHolds q st'.mem i x, fun _ => ¬ q.TextsFit, False⟩ := by
  induction keys generalizing objects self front st with
  | nil =>
    refine ⟨rfl, rfl, ?_, fun _ _ => id⟩
    simpa [Set.insert_eq_of_mem hself] using h
  | cons k keys ih =>
    rw [List.nodup_cons] at hnodup
    refine (putFront_meets (hkeys k (List.mem_cons_self ..)) (hsem k (List.mem_cons_self ..)) h hself hrear).bind
      (fun self' st' hfront => ?_) (fun _ => id) id
    obtain ⟨hsem', hrear', hstored', hslots'⟩ := hfront
    refine (ih (fun i hi => hkeys i (List.mem_cons_of_mem k hi)) hnodup.2
      (fun i hi => by rw [hsem', hsem i (List.mem_cons_of_mem k hi)]) hstored' (Set.mem_insert ..)
      (hrear'.trans hrear)).mono (fun self'' st'' hfronts => ?_) (fun _ => id) id
    obtain ⟨hsem'', hrear'', hstored'', hslots''⟩ := hfronts
    refine ⟨hsem''.trans hsem', hrear''.trans hrear', ?_, fun i x hx => hslots'' i x (hslots' i x hx)⟩
    have hsub : insert self'' objects ⊆ insert self'' (insert self' objects) :=
      Set.insert_subset_insert (Set.subset_insert ..)
    refine (congrArg (Stored q _ _ puts) (funext fun i => ?_)).mp (hstored''.mono hsub)
    by_cases hi : i = k
    · subst hi
      simp [hnodup.1]
    · simp [hi]

private theorem slotHolds_written {mem : Segment → Option Bytes} {i : Nat} {x : Bytes × τ}
    {data time data' time' : Bytes}
    (hdata : writeToMemory x.1 data = some data')
    (htime : writeToMemory (q.timestamp.str x.2) time = some time') :
    SlotHolds q (Function.update (Function.update mem (.data i) (some data')) (.time i) (some time')) i
      (asRead x) := by
  refine ⟨⟨data', ?_, readFromMemory_written hdata⟩, time', Function.update_self .., ?_⟩
  · rw [Function.update_of_ne Segment.noConfusion, Function.update_self]
  · rw [readFromMemory_writeToMemory (q.timestamp.sentinelFree_str _) htime, q.timestamp.float?_str]
    rfl

/-- What `put` makes of a queue whose contents are `puts`: they have one item more, and a full ring loses its
oldest. -/
theorem put_meets {st : Shared Semaphore Segment (Option Bytes)} {x : Bytes × τ} (hsem : ∀ l, st.sem l = 1)
    (h : Stored q objects st.mem puts front) (hself : self ∈ objects) (hfits : x.1.length + 4 ≤ q.maxDataSize) :
    (self.put q x.1 x.2).Meets st ⟨fun self' st' => st'.sem = st.sem ∧
      ∃ front', (∀ k < q.frontKeys, front' k = pushed q puts.length (front k)) ∧
        Stored q (insert self' objects) st'.mem (puts ++ [asRead x]) front', fun _ => ¬ q.TextsFit, False⟩ := by
  have htwo := q.two_le_maxLength
  have hslot : puts.length % q.maxLength < q.maxLength := Nat.mod_lt _ (by omega)
  obtain ⟨data, hdata, hdataLength⟩ := h.sized.data _ hslot
  unfold Object.put
  apply meets_acquire (hsem .rear)
  rw [Program.bind_eq, meets_readIndex, h.rear self hself]
  refine meets_openSlot hslot h.sized (meets_writeTo hdata (fun hnone => ?_) fun data' hw => ?_)
  · have hlong := writeToMemory_eq_none hnone
    omega
  have h1 := h.writeSlot (.inl rfl) hdata hw
  obtain ⟨time, htime, htimeLength⟩ := h1.sized.time _ hslot
  refine meets_writeTo htime (fun hnone hfit => ?_) fun time' hw' => ?_
  · have hlong := writeToMemory_eq_none hnone
    have hshort := hfit.2 x.2
    omega
  have h2 := (h1.writeSlot (.inr rfl) htime hw').cacheRear hself
  refine (putFronts_meets (fun k => List.mem_range.mp) List.nodup_range (fun k _ => ?_) h2 (Set.mem_insert ..) rfl).bind
    (fun self' st' hfronts => ?_) (fun _ => id) id
  · dsimp only
    rw [Function.update_of_ne Semaphore.noConfusion, hsem]
  obtain ⟨hsem', hrear', hstored', hslots⟩ := hfronts
  dsimp only at hsem'
  have hrear : (self'.lastRear q).Meets st'
      ⟨fun rear st'' => rear = puts.length % q.maxLength ∧ st'' = st', fun _ => False, False⟩ := by
    unfold Object.lastRear
    split_ifs
    · exact ⟨hstored'.rear self' (Set.mem_insert ..), rfl⟩
    · exact ⟨hrear', rfl⟩
  refine hrear.bind (fun rear st'' heq => ?_) (fun _ => False.elim) False.elim
  obtain ⟨rfl, rfl⟩ := heq
  obtain ⟨memory, hmem, hlength⟩ := hstored'.sized.rear
  apply meets_writeTo hmem (not_textsFit hlength)
  intro memory' hw''
  rw [Program.bind_eq, meets_release]
  have hpushed : ∀ k < q.frontKeys, (if k ∈ List.range q.frontKeys then pushed q puts.length (front k) else front k) =
      pushed q puts.length (front k) := fun k hk => if_pos (List.mem_range.mpr hk)
  have hmoved := hstored'.moveRear (fun k hk => ?_) hmem (hslots _ _ (slotHolds_written hw hw')) hw''
  · have hcached := hmoved.cacheRear (Set.mem_insert self' _)
    rw [List.length_append, List.length_singleton, ← Nat.mod_add_mod] at hcached
    refine ⟨?_, _, hpushed, hcached.mono (Set.insert_subset_insert ?_)⟩
    · dsimp only
      rw [hsem']
      exact update_back (hsem _) _ (by simp)
    · exact (Set.subset_insert ..).trans (Set.subset_insert ..)
  · have hroom := h.room k hk
    rw [hpushed k hk, pushed]
    split_ifs <;> omega

private theorem slot_eq_iff {a n : Nat} (hle : a ≤ n) (hroom : n + 1 ≤ a + q.maxLength) :
    n % q.maxLength = a % q.maxLength ↔ a = n := by
  refine ⟨fun heq => ?_, fun heq => by rw [heq]⟩
  by_contra hne
  exact mod_ne_of_window (a := a) (b := n) (by omega) (by omega) heq.symm

theorem restored {st : Shared Semaphore Segment (Option Bytes)} (hsem : ∀ l, st.sem l = 1)
    {sem : Semaphore → Nat} (h : ∀ l, sem l = 1) : ({ sem := sem, mem := st.mem } : Shared _ _ _) = st := by
  rw [show sem = st.sem from funext fun l => (h l).trans (hsem l).symm]

/-- `isEmpty` compares what the queue has with what the consumer has taken. -/
theorem isEmpty_meets {st : Shared Semaphore Segment (Option Bytes)} (hk : k < q.frontKeys) (hsem : ∀ l, st.sem l = 1)
    (h : Stored q objects st.mem puts front) (hself : self ∈ objects) :
    (self.isEmpty q (some k)).Meets st ⟨fun r st' => st' = st ∧ r.1.fronts k = front k % q.maxLength ∧
      Stored q (insert r.1 objects) st.mem puts front ∧
        r.2 = decide (front k = puts.length), fun _ => False, False⟩ := by
  have hread := h.cacheIndices hself hk
  have hcached : (self.setFront k (front k % q.maxLength)).fronts k = front k % q.maxLength := Function.update_self ..
  unfold Object.isEmpty CrossQueue.addressKeys
  apply meets_acquire (hsem .rear)
  rw [Object.isEmptyLoop]
  apply meets_lockFront hk (by simp [hsem])
  rw [Program.bind_eq, meets_readIndex, Program.bind_eq, meets_readIndex]
  dsimp only
  rw [h.fronts self hself k hk, h.rear self hself]
  simp only [slot_eq_iff (h.le k hk) (h.room k hk)]
  split_ifs with hempty
  · rw [Program.bind_eq, meets_release, Program.bind_eq, meets_release]
    refine ⟨restored hsem fun l => ?_, hcached, hread, by simp [hempty]⟩
    simp +contextual [Function.update_apply, hsem]
  · rw [Program.bind_eq, meets_release, Object.isEmptyLoop, Program.bind_eq, meets_release]
    refine ⟨restored hsem fun l => ?_, hcached, hread, by simp [hempty]⟩
    simp +contextual [Function.update_apply, hsem]

theorem gettimeLoop_meets {sem : Semaphore → Nat} {mem : Segment → Option Bytes} (h : Stored q objects mem puts front)
    (top : Nat) {a : Nat} (hle : a ≤ puts.length) (hroom : puts.length + 1 ≤ a + q.maxLength) :
    (Object.gettimeLoop q (puts.length % q.maxLength) top (a % q.maxLength)).Meets ⟨sem, mem⟩
      ⟨fun times st' => st' = ⟨sem, mem⟩ ∧ times = ((puts.drop a).take top).map Prod.snd, fun _ => False, False⟩ := by
  have htwo := q.two_le_maxLength
  induction top generalizing a with
  | zero => exact ⟨rfl, by simp⟩
  | succ top ih =>
    rw [Object.gettimeLoop, if_congr (eq_comm.trans (slot_eq_iff hle hroom)) rfl rfl]
    split_ifs with hempty hslot
    · exact ⟨rfl, by simp [hempty]⟩
    · have hlt : a < puts.length := lt_of_le_of_ne hle hempty
      have hholds := h.slot a hlt hroom
      obtain ⟨memory, hmem, -⟩ := hholds.time
      refine meets_attach hmem (meets_readTime hholds ?_)
      rw [Nat.mod_add_mod]
      refine (ih hlt (by omega)).bind (fun times st' hrest => ?_) (fun _ => id) id
      obtain ⟨rfl, rfl⟩ := hrest
      refine ⟨rfl, ?_⟩
      rw [List.drop_eq_getElem_cons hlt, List.take_succ_cons, List.map_cons]
    · exact absurd (Nat.mod_lt _ (by omega)) hslot

/-- `gettime` lists the times of the first items that the consumer has not taken. -/
theorem gettime_meets {st : Shared Semaphore Segment (Option Bytes)} (hk : k < q.frontKeys) (hsem : ∀ l, st.sem l = 1)
    (h : Stored q objects st.mem puts front) (hself : self ∈ objects) (top : Nat) :
    (self.gettime q (some k) top).Meets st ⟨fun r st' => st' = st ∧ Stored q (insert r.1 objects) st.mem puts front ∧
      r.2 = ((puts.drop (front k)).take top).map Prod.snd, fun _ => False, False⟩ := by
  have hread := h.cacheIndices hself hk
  unfold Object.gettime
  rw [CrossQueue.addressKey, Program.bind_eq, Program.bind_done]
  apply meets_acquire (hsem .rear)
  rw [Program.bind_eq, meets_readIndex, h.rear self hself]
  apply meets_lockFront hk (by simp [hsem])
  rw [Program.bind_eq, meets_readIndex]
  dsimp only
  rw [h.fronts self hself k hk]
  refine (gettimeLoop_meets h top (h.le k hk) (h.room k hk)).bind (fun times st' htimes => ?_) (fun _ => id) id
  obtain ⟨rfl, rfl⟩ := htimes
  rw [Program.bind_eq, meets_release, Program.bind_eq, meets_release]
  refine ⟨restored hsem fun l => ?_, hread, rfl⟩
  simp +contextual [Function.update_apply, hsem]

private theorem advance_meets (sem : Semaphore → Nat) {mem : Segment → Option Bytes} (hk : k < q.frontKeys)
    (h : Stored q objects mem puts front) (hself : self ∈ objects) (hfront : self.fronts k = front k % q.maxLength)
    (hlt : front k < puts.length) :
    (self.advance q k).Meets ⟨sem, mem⟩ ⟨fun self' st' =>
      st'.sem = Function.update sem (.front k) (sem (.front k) + 1) ∧
      Stored q (insert self' objects) st'.mem puts (Function.update front k (front k + 1)),
      fun _ => ¬ q.TextsFit, False⟩ := by
  obtain ⟨memory, hmem, hlength⟩ := h.sized.front k hk
  unfold Object.advance
  rw [hfront]
  apply meets_writeTo hmem (not_textsFit hlength)
  intro memory' hw
  rw [Program.bind_eq, meets_release]
  have hcached := (h.moveFront hk hlt hmem hw).cacheFront hself hk
  rw [Function.update_self, ← Nat.mod_add_mod] at hcached
  exact ⟨rfl, hcached⟩

private theorem remove_meets {v : Version} {st : Shared Semaphore Segment (Option Bytes)} (hk : k < q.frontKeys)
    (hsem : ∀ l, st.sem l = 1) (h : Stored q objects st.mem puts front) (hself : self ∈ objects)
    (hfront : self.fronts k = front k % q.maxLength) (hlt : front k < puts.length) :
    (self.remove q v k).Meets st ⟨fun r st' => r.2 = puts[front k] ∧ st'.sem = st.sem ∧
      Stored q (insert r.1 objects) st'.mem puts (Function.update front k (front k + 1)),
      fun _ => ¬ (q.TextsFit ∧ q.itemsize ∣ puts[front k].1.length), False⟩ := by
  have htwo := q.two_le_maxLength
  have hslot := h.slot (front k) hlt (h.room k hk)
  have hi : front k % q.maxLength < q.maxLength := Nat.mod_lt _ (by omega)
  have hread := h.cacheFront hself hk
  have hcached : (self.setFront k (front k % q.maxLength)).fronts k = front k % q.maxLength := Function.update_self ..
  have hsub : ∀ self' : Object, insert self' objects ⊆ insert self'
      (insert (self.setFront k (front k % q.maxLength)) objects) :=
    fun self' => Set.insert_subset_insert (Set.subset_insert ..)
  have hadvance := fun sem : Semaphore → Nat => advance_meets sem hk hread (Set.mem_insert ..) hcached hlt
  cases v with
  | cross =>
    unfold Object.remove
    rw [hfront]
    refine meets_readSlot hi h.sized hslot (fun hitems hfit => hitems hfit.2) fun _ => meets_lockFront hk (hsem _) ?_
    have hindex := h.fronts self hself k hk
    rw [hfront] at hindex
    rw [Program.bind_eq, meets_readIndex, hindex]
    refine (hadvance _).bind (fun self' st' hadvanced => ?_) (fun _ hfit hfits => hfit hfits.1) id
    refine ⟨rfl, ?_, hadvanced.2.mono (hsub self')⟩
    rw [hadvanced.1]
    exact update_back (hsem _) _ (by simp)
  | infer =>
    unfold Object.remove
    apply meets_lockFront hk (hsem _)
    rw [Program.bind_eq, meets_readIndex, h.fronts self hself k hk]
    refine meets_readSlot hi h.sized hslot (fun hitems hfit => hitems hfit.2) fun _ =>
      (hadvance _).bind (fun self' st' hadvanced => ?_) (fun _ hfit hfits => hfit hfits.1) id
    refine ⟨rfl, ?_, hadvanced.2.mono (hsub self')⟩
    rw [hadvanced.1]
    exact update_back (hsem _) _ (by simp)

/-- A round of `get` from a queue that is not empty takes the item at its front, and returns it if it
has the shape. -/
theorem getRound_meets {v : Version} {st : Shared Semaphore Segment (Option Bytes)} (hk : k < q.frontKeys)
    (hsem : ∀ l, st.sem l = 1) (h : Stored q objects st.mem puts front) (hself : self ∈ objects)
    (hlt : front k < puts.length) :
    (self.getRound q v k).Meets st ⟨fun r st' =>
      r.2 = (if q.Shaped puts[front k].1 then some puts[front k] else none) ∧ st'.sem = st.sem ∧
      Stored q (insert r.1 objects) st'.mem puts (Function.update front k (front k + 1)),
      fun _ => ¬ (q.TextsFit ∧ q.Shaped puts[front k].1), False⟩ := by
  refine (isEmpty_meets hk hsem h hself).bind (fun r st' hchecked => ?_) (fun _ => False.elim) False.elim
  obtain ⟨self', empty⟩ := r
  obtain ⟨rfl, hfront, hread, hempty⟩ := hchecked
  obtain rfl : empty = false := hempty.trans (decide_eq_false hlt.ne)
  refine (remove_meets hk hsem hread (Set.mem_insert ..) hfront hlt).bind (fun r st'' hremoved => ?_)
    (fun _ hfit hfits => hfit ⟨hfits.1, _, hfits.2⟩) id
  obtain ⟨self'', data, timestamp⟩ := r
  obtain ⟨hitem, hsem'', hstored⟩ := hremoved
  dsimp only at hitem
  rw [← hitem]
  exact ⟨rfl, hsem'', hstored.mono (Set.insert_subset_insert (Set.subset_insert ..))⟩

/-- A `get` from a queue that is not empty returns the item at its front in the first round. -/
theorem get_meets {v : Version} {st : Shared Semaphore Segment (Option Bytes)} (hk : k < q.frontKeys)
    (hsem : ∀ l, st.sem l = 1) (h : Stored q objects st.mem puts front) (hself : self ∈ objects)
    (hlt : front k < puts.length) (hshaped : q.Shaped puts[front k].1) (rounds : Nat) :
    (self.get q v (some k) (rounds + 1)).Meets st ⟨fun r st' => r.2 = some puts[front k] ∧ st'.sem = st.sem ∧
      Stored q (insert r.1 objects) st'.mem puts (Function.update front k (front k + 1)),
      fun _ => ¬ q.TextsFit, False⟩ := by
  unfold Object.get
  rw [CrossQueue.addressKey, Program.bind_eq, Program.bind_done, Object.getRounds]
  refine (getRound_meets hk hsem h hself hlt).bind (fun r st' hround => ?_)
      (fun _ hfit hfits => hfit ⟨hfits, hshaped⟩) id
  obtain ⟨self', item⟩ := r
  rw [if_pos hshaped] at hround
  obtain ⟨rfl, hstored⟩ := hround
  exact ⟨rfl, hstored⟩

/-- A `get` from an empty queue waits. -/
theorem getRounds_empty_meets {v : Version} {st : Shared Semaphore Segment (Option Bytes)} (hk : k < q.frontKeys)
    (hsem : ∀ l, st.sem l = 1) (h : Stored q objects st.mem puts front) (hself : self ∈ objects)
    (hempty : front k = puts.length) (rounds : Nat) :
    (Object.getRounds q v k rounds self).Meets st ⟨fun r _ => r.2 = none, fun _ => True, True⟩ := by
  induction rounds generalizing self objects with
  | zero => rfl
  | succ rounds ih =>
    rw [Object.getRounds, Program.bind_eq, Object.getRound, Program.meets_bind]
    refine (isEmpty_meets hk hsem h hself).bind (fun r st' hchecked => ?_) (fun _ => False.elim) False.elim
    obtain ⟨self', empty⟩ := r
    obtain ⟨rfl, -, hread, rfl⟩ := hchecked
    rw [decide_eq_true hempty]
    exact ih hread (Set.mem_insert ..)

/-- A `get` of the last item, which lacks the shape, returns nothing. -/
theorem get_unshaped_meets {v : Version} {st : Shared Semaphore Segment (Option Bytes)} (hk : k < q.frontKeys)
    (hsem : ∀ l, st.sem l = 1) (h : Stored q objects st.mem puts front) (hself : self ∈ objects)
    (hlt : front k < puts.length) (hlast : front k + 1 = puts.length) (hshaped : ¬ q.Shaped puts[front k].1)
      (rounds : Nat) :
    (self.get q v (some k) rounds).Meets st ⟨fun r _ => r.2 = none, fun _ => True, True⟩ := by
  unfold Object.get
  rw [CrossQueue.addressKey, Program.bind_eq, Program.bind_done]
  cases rounds with
  | zero => rfl
  | succ rounds =>
    rw [Object.getRounds]
    refine (getRound_meets hk hsem h hself hlt).bind (fun r st' hround => ?_) (fun _ _ => trivial) False.elim
    obtain ⟨self', item⟩ := r
    rw [if_neg hshaped] at hround
    obtain ⟨rfl, hsem', hstored⟩ := hround
    refine getRounds_empty_meets hk (fun l => ?_) hstored (Set.mem_insert ..) ?_ rounds
    · rw [hsem', hsem]
    · rw [Function.update_self, hlast]

end

end Soar.Computing
