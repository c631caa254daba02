import Soar.Computing.JobInvariant

/-! The steps of the scheduler and of the model processes keep the invariant of the queue, and the
identity of the jobs. -/
namespace Soar.Computing
open Soar.Library

variable {τ : Type} {q : CrossQueue τ} {items sent : Nat → Bytes × τ} {w : JobSystem τ} {ring : Ring} {p : Producer}

@[simp] private theorem callers_zero (call : Consumer τ) : callers call 0 = call := Function.update_self ..

private theorem callers_of_ne (call : Consumer τ) {k : Nat} (hk : k ≠ 0) : callers call k = {} :=
  Function.update_of_ne hk ..

private theorem callers_idle {call : Consumer τ} (h : call.point = .acquireRear) (k : Nat) :
    (callers call k).point = .acquireRear := by
  unfold callers
  rw [Function.update_apply]
  split_ifs
  · exact h
  · rfl

private theorem Inv.idle {cs cs' : Nat → Consumer τ} {holder : Semaphore → Option Process}
    (h : Inv q .infer items ring p cs) (hidle : ∀ k, (cs k).point = .acquireRear)
    (hidle' : ∀ k, (cs' k).point = .acquireRear) (hreturned : ∀ k, (cs' k).returned = (cs k).returned)
    (hrear : ∀ k, k < q.frontKeys → readInt (cs' k).rear (ring.mem .rear) = p.count % q.maxLength)
    (hfront : ∀ k, k < q.frontKeys →
      readInt (cs' k).front (ring.mem (.front k)) = (ring.history k).length % q.maxLength)
    (hkeep : ∀ l, ring.holder l = some .producer → holder l = some .producer) :
    Inv q .infer items { ring with holder := holder } p cs' where
  put := { h.put with
    slot := fun a ha hroom => ⟨(h.put.slot a ha hroom).data, (h.put.slot a ha hroom).time⟩
    holdsRear := fun hp => hkeep _ (h.put.holdsRear hp)
    holdsFront := fun k hp => hkeep _ (h.put.holdsFront k hp) }
  key := by
    intro k hk
    have hdelivered := (h.key k hk).delivered
    rw [Consumer.delivered, hidle k, if_neg GetPoint.noConfusion] at hdelivered
    refine (h.key k hk).away ?_ ?_ (hrear k hk) (hfront k hk) ?_ ?_ ?_
    · simp [hidle' k]
    · simp [hidle' k]
    · rw [Consumer.delivered, hidle' k, if_neg GetPoint.noConfusion, hreturned k, hdelivered]
    · simp [hidle' k]
    · simp [hidle' k]

private theorem Serving.selects (h : Serving q items w) {holder : Semaphore → Option Process} {s' : Jobs τ}
    (hidle : w.jobs.call.point = .acquireRear)
    (hkeep : ∀ l, w.ring.holder l = some .producer → holder l = some .producer) (hcall : s'.call = w.jobs.call)
    (hobject : ∀ agent, Cached q w.ring w.producer.count (s'.object agent))
    (hrear : s'.point.holdsRear → holder .rear = some (.consumer 0))
    (hfront : s'.point.holdsFront → holder (.front 0) = some (.consumer 0))
    (hknows : s'.point.knowsRear → (s'.object .scheduler).rear = w.producer.count % q.maxLength)
    (htimed : s'.point.hasTimes → Timed q items w.ring w.producer s')
    (hroom : s'.point = .timeReadTime → (w.ring.history 0).length + s'.times.length < w.producer.count)
    (htop : 0 < s'.top) : Serving q items ⟨{ w.ring with holder := holder }, w.producer, s'⟩ where
  inv := by
    refine h.inv.idle (callers_idle hidle) (callers_idle (hcall ▸ hidle)) (fun k => by rw [hcall])
      (fun k hk => ?_) (fun k hk => ?_) hkeep
    · rw [hcall]
      exact (h.inv.key k hk).rear_text
    · rw [hcall]
      exact (h.inv.key k hk).front_text
  selecting := {
    object := fun agent => ⟨(hobject agent).rear, (hobject agent).front⟩
    holdsRear := hrear
    holdsFront := hfront
    rear := hknows
    timed := fun ht => ⟨(htimed ht).times, (htimed ht).le, (htimed ht).timeFront⟩
    room := hroom
    top := htop }
  idle := fun _ => hcall ▸ hidle

private theorem Serving.selectsFree (h : Serving q items w) {holder : Semaphore → Option Process} {s' : Jobs τ}
    (hidle : w.jobs.call.point = .acquireRear)
    (hkeep : ∀ l, w.ring.holder l = some .producer → holder l = some .producer) (hcall : s'.call = w.jobs.call)
    (hobject : ∀ agent, Cached q w.ring w.producer.count (s'.object agent)) (hrear : ¬ s'.point.holdsRear)
    (hfront : ¬ s'.point.holdsFront) (htop : 0 < s'.top) :
    Serving q items ⟨{ w.ring with holder := holder }, w.producer, s'⟩ := by
  refine h.selects hidle hkeep hcall hobject (fun hr => absurd hr hrear) (fun hf => absurd hf hfront)
    (fun hk => absurd hk.holdsRear hrear) (fun ht => absurd ht.holdsRear hrear) (fun hread => ?_) htop
  rw [hread] at hrear
  exact absurd trivial hrear

private theorem keep_acquired {holder : Semaphore → Option Process} {l : Semaphore} (hn : holder l = none) :
    ∀ l', holder l' = some .producer →
      Function.update holder l (some (.consumer 0) : Option Process) l' = some .producer :=
  fun _ hl => update_acquired hn hl _

private theorem keep_released {holder : Semaphore → Option Process} {l : Semaphore}
    (hh : holder l = some (.consumer 0)) :
    ∀ l', holder l' = some .producer → Function.update holder l (none : Option Process) l' = some .producer :=
  fun _ hl => update_released hh Process.noConfusion hl _

private theorem Cached.readFront {cache : Cache} {count : Nat} (h : Cached q ring count cache) :
    Cached q ring count { cache with front := readInt cache.front (ring.mem (.front 0)) } :=
  ⟨h.rear, by rw [readInt_readInt]; exact h.front⟩

private theorem Cached.readRear {cache : Cache} {count : Nat} (h : Cached q ring count cache) :
    Cached q ring count { cache with rear := readInt cache.rear (ring.mem .rear) } :=
  ⟨by rw [readInt_readInt]; exact h.rear, h.front⟩

private theorem cached_update {object : Agent → Cache} {count : Nat} (h : ∀ agent, Cached q ring count (object agent))
    {agent : Agent} {cache : Cache} (hc : Cached q ring count cache) :
    ∀ agent', Cached q ring count (Function.update object agent cache agent') := by
  intro agent'
  rw [Function.update_apply]
  split_ifs
  · exact hc
  · exact h agent'

private theorem Serving.size_step (h : Serving q items w) (choice : Choice) (hraised : ¬ w.jobs.raised)
    (hidle : w.jobs.call.point = .acquireRear)
    (hp : w.jobs.point ∈ [JobPoint.sizeAcquireFront, .sizeReadFront, .sizeReleaseFront, .sizeAcquireRear, .sizeReadRear,
      .sizeReleaseRear]) : Serving q items (w.step q sent (.consumer choice)) := by
  have hs := h.selecting
  simp only [JobSystem.step, CrossQueue.schedule, if_neg hraised]
  cases hpoint : w.jobs.point <;> simp only [hpoint, List.mem_cons, reduceCtorEq, List.not_mem_nil, or_false,
    false_or, or_self] at hp
  case sizeAcquireFront =>
    dsimp only [Action.exec]
    split_ifs with hn
    · exact h.selects hidle (keep_acquired hn) rfl hs.object False.elim
        (fun _ => Function.update_self ..) False.elim False.elim JobPoint.noConfusion hs.top
    · exact h
  case sizeReadFront =>
    have hheld := hs.holdsFront (by simp [hpoint])
    exact h.selects hidle (fun _ => id) rfl
      (cached_update hs.object (hs.object _).readFront) False.elim (fun _ => hheld) False.elim False.elim
      JobPoint.noConfusion hs.top
  case sizeReleaseFront =>
    have hheld := hs.holdsFront (by simp [hpoint])
    exact h.selectsFree hidle (keep_released hheld) rfl hs.object id id hs.top
  case sizeAcquireRear =>
    dsimp only [Action.exec]
    split_ifs with hn
    · exact h.selects hidle (keep_acquired hn) rfl hs.object
        (fun _ => Function.update_self ..) False.elim False.elim False.elim JobPoint.noConfusion hs.top
    · exact h
  case sizeReadRear =>
    have hheld := hs.holdsRear (by simp [hpoint])
    exact h.selects hidle (fun _ => id) rfl
      (cached_update hs.object (hs.object _).readRear) (fun _ => hheld) False.elim False.elim False.elim
      JobPoint.noConfusion hs.top
  case sizeReleaseRear =>
    have hheld := hs.holdsRear (by simp [hpoint])
    dsimp only [Action.exec]
    split_ifs
    · exact h.selectsFree hidle (keep_released hheld) rfl hs.object id id hs.top
    · exact h.selectsFree hidle (keep_released hheld) rfl hs.object id id Nat.one_pos
    · exact h.selectsFree hidle (keep_released hheld) rfl hs.object id id Nat.two_pos

private theorem Serving.nextTime (h : Serving q items w) {s' : Jobs τ} (hidle : w.jobs.call.point = .acquireRear)
    (hheldRear : w.ring.holder .rear = some (.consumer 0)) (hheldFront : w.ring.holder (.front 0) = some (.consumer 0))
    (hcall : s'.call = w.jobs.call)
    (hobject : ∀ agent, Cached q w.ring w.producer.count (s'.object agent))
    (hrear : (s'.object .scheduler).rear = w.producer.count % q.maxLength)
    (htimed : Timed q items w.ring w.producer s') (htop : 0 < s'.top) :
    Serving q items ⟨w.ring, w.producer, s'.nextTime⟩ := by
  refine h.selects hidle (fun _ => id) hcall hobject (fun _ => hheldRear) (fun _ => hheldFront) (fun _ => hrear)
    (fun _ => ⟨htimed.times, htimed.le, htimed.timeFront⟩) (fun hpoint => ?_) htop
  unfold Jobs.nextTime at hpoint
  dsimp only at hpoint
  split_ifs at hpoint with hstop
  refine lt_of_le_of_ne htimed.le fun heq => hstop (.inr ?_)
  rw [htimed.timeFront, hrear, show (w.ring.history 0).length + s'.times.length = _ from heq]

/-- The time that the loop reads is that of the put at its position. -/
theorem Serving.float?_time (h : Serving q items w) (hkey : 0 < q.frontKeys)
    (hroom : (w.ring.history 0).length + w.jobs.times.length < w.producer.count)
    (htimed : Timed q items w.ring w.producer w.jobs) :
    q.timestamp.float? (readFromMemory (w.ring.mem (.time w.jobs.timeFront))) =
      some (items ((w.ring.history 0).length + w.jobs.times.length)).2 := by
  rw [htimed.timeFront]
  refine (h.inv.put.slot _ hroom ?_).time
  have hfull := (h.inv.key 0 hkey).room
  omega

private theorem Serving.gettime_step (h : Serving q items w) (hkey : 0 < q.frontKeys) (choice : Choice)
    (hraised : ¬ w.jobs.raised) (hidle : w.jobs.call.point = .acquireRear)
    (hp : w.jobs.point ∈ [JobPoint.timeAcquireRear, .timeReadRear, .timeAcquireFront, .timeReadFront, .timeReadTime,
      .timeReleaseFront]) : Serving q items (w.step q sent (.consumer choice)) := by
  have hs := h.selecting
  have hlength := q.two_le_maxLength
  simp only [JobSystem.step, CrossQueue.schedule, if_neg hraised]
  cases hpoint : w.jobs.point <;> simp only [hpoint, List.mem_cons, reduceCtorEq, List.not_mem_nil, or_false,
    false_or, or_self] at hp
  case timeAcquireRear =>
    dsimp only [Action.exec]
    split_ifs with hn
    · exact h.selects hidle (keep_acquired hn) rfl hs.object
        (fun _ => Function.update_self ..) False.elim False.elim False.elim JobPoint.noConfusion hs.top
    · exact h
  case timeReadRear =>
    have hheld := hs.holdsRear (by simp [hpoint])
    refine h.selects hidle (fun _ => id) rfl
      (cached_update hs.object (hs.object _).readRear) (fun _ => hheld) False.elim (fun _ => ?_) False.elim
      JobPoint.noConfusion hs.top
    dsimp only [Jobs.cache, Action.exec]
    rw [Function.update_self]
    exact (hs.object .scheduler).rear
  case timeAcquireFront =>
    have hheld := hs.holdsRear (by simp [hpoint])
    dsimp only [Action.exec]
    split_ifs with hn
    · exact h.selects hidle (keep_acquired hn) rfl hs.object
        (fun _ => update_acquired hn hheld _) (fun _ => Function.update_self ..)
        (fun _ => hs.rear (by simp [hpoint])) False.elim JobPoint.noConfusion hs.top
    · exact h
  case timeReadFront =>
    have hheldRear := hs.holdsRear (by simp [hpoint])
    have hle := (h.inv.key 0 hkey).le_unchecked (by
      rw [h.inv.put.point_of_holder Process.noConfusion hheldRear]
      exact id)
    refine h.nextTime hidle hheldRear (hs.holdsFront (by simp [hpoint])) rfl
      (cached_update hs.object (hs.object _).readFront) ?_ ⟨rfl, hle, ?_⟩ hs.top
    · dsimp only [Jobs.cache]
      rw [Function.update_self]
      exact hs.rear (by simp [hpoint])
    · exact (hs.object .scheduler).front
  case timeReadTime =>
    have htimed := hs.timed (by simp [hpoint])
    have hroom := hs.room hpoint
    have hslot : w.jobs.timeFront < q.maxLength := by
      rw [htimed.timeFront]
      exact Nat.mod_lt _ (by omega)
    simp only [if_pos hslot, Action.exec, h.float?_time hkey hroom htimed]
    refine h.nextTime hidle (hs.holdsRear (by simp [hpoint])) (hs.holdsFront (by simp [hpoint])) rfl hs.object
      (hs.rear (by simp [hpoint])) ⟨?_, ?_, ?_⟩ hs.top
    · rw [List.length_append, List.length_singleton, List.range_succ, List.map_append, ← htimed.times]
      rfl
    · rw [List.length_append, List.length_singleton]
      exact hroom
    · rw [List.length_append, List.length_singleton, htimed.timeFront, Nat.mod_add_mod, Nat.add_assoc]
  case timeReleaseFront =>
    have hheldFront := hs.holdsFront (by simp [hpoint])
    have htimed := hs.timed (by simp [hpoint])
    refine h.selects hidle (keep_released hheldFront) rfl hs.object (fun _ => ?_)
      False.elim False.elim (fun _ => ⟨htimed.times, htimed.le, htimed.timeFront⟩) JobPoint.noConfusion hs.top
    rw [Function.update_of_ne (show Semaphore.rear ≠ .front 0 from Semaphore.noConfusion)]
    exact hs.holdsRear (by simp [hpoint])

private theorem Serving.chosen_step (h : Serving q items w) (choice : Choice) (hraised : ¬ w.jobs.raised)
    (hidle : w.jobs.call.point = .acquireRear) (hpoint : w.jobs.point = .timeReleaseRear) :
    Serving q items (w.step q sent (.consumer choice)) := by
  have hs := h.selecting
  have hheld := hs.holdsRear (by simp [hpoint])
  simp only [JobSystem.step, CrossQueue.schedule, if_neg hraised, hpoint, Action.exec, Jobs.chosen]
  split_ifs
  · cases choice.agent with
    | none => exact h.selectsFree hidle (keep_released hheld) rfl hs.object id id hs.top
    | some agent =>
      exact {
        inv := by
          refine h.inv.idle (callers_idle hidle) (callers_idle rfl) (fun k => ?_) (fun k hk => ?_) (fun k hk => ?_)
            (keep_released hheld)
          · unfold callers
            rw [Function.update_apply, Function.update_apply]
            split_ifs <;> rfl
          · by_cases hk0 : k = 0
            · subst hk0
              exact (hs.object agent).rear
            · have htext := (h.inv.key k hk).rear_text
              rwa [callers_of_ne _ hk0] at htext ⊢
          · by_cases hk0 : k = 0
            · subst hk0
              exact (hs.object agent).front
            · have htext := (h.inv.key k hk).front_text
              rwa [callers_of_ne _ hk0] at htext ⊢
        selecting := {
          object := fun agent => ⟨(hs.object agent).rear, (hs.object agent).front⟩
          holdsRear := False.elim
          holdsFront := False.elim
          rear := False.elim
          timed := False.elim
          room := JobPoint.noConfusion
          top := hs.top }
        idle := fun hnone => absurd rfl (hnone agent) }
  · exact h.selectsFree hidle (keep_released hheld) rfl hs.object id id hs.top

/-! The steps of `get`. -/

variable {c : Consumer τ}

private theorem get_keeps (ring : Ring) (hc : c.point ≠ .writeFront) :
    ((InferQueue.get q 0 c).exec (.consumer 0) ring c).1.mem = ring.mem ∧
      ((InferQueue.get q 0 c).exec (.consumer 0) ring c).1.history = ring.history := by
  rw [InferQueue.get, CrossQueue.getBy]
  by_cases hr : c.raised
  · rw [if_pos hr]
    exact ⟨rfl, rfl⟩
  rw [if_neg hr]
  cases hpoint : c.point with
  | writeFront => exact absurd hpoint hc
  | acquireRear | acquireFront | lockFront =>
    dsimp only [Action.exec]
    split_ifs <;> exact ⟨rfl, rfl⟩
  | readData =>
    dsimp only
    split_ifs <;> exact ⟨rfl, rfl⟩
  | _ => exact ⟨rfl, rfl⟩

private theorem get_point (ring : Ring) (hc : c.point ≠ .writeFront) (hc' : c.point ≠ .unlockFront) :
    ((InferQueue.get q 0 c).exec (.consumer 0) ring c).2.point ≠ .unlockFront := by
  rw [InferQueue.get, CrossQueue.getBy]
  by_cases hr : c.raised
  · rw [if_pos hr]
    exact hc'
  rw [if_neg hr]
  cases hpoint : c.point with
  | writeFront => exact absurd hpoint hc
  | unlockFront => exact absurd hpoint hc'
  | acquireRear | acquireFront | lockFront =>
    dsimp only [Action.exec]
    split_ifs <;> simp [hpoint]
  | readRear =>
    dsimp only [Action.exec]
    split_ifs <;> simp
  | readData =>
    dsimp only
    split_ifs
    · dsimp only [Action.exec]
      split_ifs
      · exact GetPoint.noConfusion
      · exact GetPoint.noConfusion
    · exact hc'
  | readTime =>
    dsimp only [Action.exec]
    split <;> exact GetPoint.noConfusion
  | _ => simp [Action.exec, Version.afterCheck, Version.afterFront]

private theorem exec_writeFront (ring : Ring) (hr : ¬ c.raised) (hc : c.point = .writeFront) :
    (∃ text, writeToMemory (str ((c.front + 1) % q.maxLength)) (ring.mem (.front 0)) = some text ∧
      (InferQueue.get q 0 c).exec (.consumer 0) ring c =
        ({ ring with mem := Function.update ring.mem (.front 0) text, history := logMove 0 .taken ring.history },
          { c with point := .unlockFront, front := (c.front + 1) % q.maxLength })) ∨
      (InferQueue.get q 0 c).exec (.consumer 0) ring c = (ring, { c with raised := true }) := by
  rw [InferQueue.get, CrossQueue.getBy, if_neg hr]
  simp only [hc, Action.exec]
  cases hw : writeToMemory (str ((c.front + 1) % q.maxLength)) (ring.mem (.front 0)) with
  | none => exact .inr rfl
  | some text => exact .inl ⟨text, rfl, rfl⟩

private theorem Serving.calling (h : Serving q items w) {agent : Agent} (hpoint : w.jobs.point = .get agent)
    {ring' : Ring} {call' : Consumer τ} (hinv : Inv q .infer items ring' w.producer (callers call'))
    (hobject : ∀ agent', Cached q ring' w.producer.count (w.jobs.object agent'))
    (hcache : Cached q ring' w.producer.count ⟨call'.rear, call'.front⟩)
    (hidle : w.jobs.call.point = .unlockFront → call'.point = .acquireRear) :
    Serving q items ⟨ring', w.producer, q.called w.jobs agent call'⟩ := by
  rw [CrossQueue.called]
  split_ifs with hreturns
  · exact {
      inv := hinv
      selecting := {
        object := cached_update hobject hcache
        holdsRear := nofun
        holdsFront := nofun
        rear := nofun
        timed := nofun
        room := nofun
        top := h.selecting.top }
      idle := fun _ => hidle hreturns.1 }
  · exact {
      inv := hinv
      selecting := {
        object := cached_update hobject hcache
        holdsRear := fun hholds => by simp [Jobs.cache, hpoint] at hholds
        holdsFront := fun hholds => by simp [Jobs.cache, hpoint] at hholds
        rear := fun hknows => by simp [Jobs.cache, hpoint] at hknows
        timed := fun htimed => by simp [Jobs.cache, hpoint] at htimed
        room := fun hroom => by simp [Jobs.cache, hpoint] at hroom
        top := h.selecting.top }
      idle := fun hnone => absurd hpoint (hnone agent) }

private theorem exec_unlockFront (ring : Ring) (hr : ¬ c.raised) (hc : c.point = .unlockFront) :
    (InferQueue.get q 0 c).exec (.consumer 0) ring c =
      ({ ring with holder := Function.update ring.holder (.front 0) none }, q.finish c) := by
  rw [InferQueue.get, CrossQueue.getBy, if_neg hr]
  simp only [hc, Action.exec]

private theorem Serving.get_exec (h : Serving q items w) (hkey : 0 < q.frontKeys) (hr : ¬ w.jobs.call.raised)
    {agent : Agent} (hpoint : w.jobs.point = .get agent) :
    let next := (InferQueue.get q 0 w.jobs.call).exec (.consumer 0) w.ring w.jobs.call
    Serving q items ⟨next.1, w.producer, q.called w.jobs agent next.2⟩ := by
  intro next
  have hinv : Inv q .infer items next.1 w.producer (callers next.2) := by
    have hstep := Inv.get_step h.inv hkey
    rwa [callers_zero, callers, Function.update_idem] at hstep
  have hnext := hinv.key 0 hkey
  rw [callers_zero] at hnext
  have hfront := (h.inv.key 0 hkey).front
  rw [callers_zero] at hfront
  refine h.calling hpoint hinv (fun agent' => ?_) ⟨hnext.rear_text, hnext.front_text⟩ fun hunlock => ?_
  · have hobject := h.selecting.object agent'
    by_cases hwrite : w.jobs.call.point = .writeFront
    · rcases exec_writeFront (q := q) w.ring hr hwrite with ⟨text, hw, hexec⟩ | hexec
      · rw [show next = _ from hexec]
        exact hobject.movedFront .taken (hfront (by simp [hwrite])) hw
      · rw [show next = _ from hexec]
        exact hobject
    · obtain ⟨hmem, hhistory⟩ := get_keeps (q := q) w.ring hwrite
      exact ⟨by rw [hmem]; exact hobject.rear, by rw [hmem, hhistory]; exact hobject.front⟩
  · rw [show next = _ from exec_unlockFront w.ring hr hunlock]
    rfl

private theorem Serving.get_step (h : Serving q items w) (hkey : 0 < q.frontKeys) (choice : Choice)
    (hraised : ¬ w.jobs.raised) {agent : Agent} (hpoint : w.jobs.point = .get agent) :
    Serving q items (w.step q sent (.consumer choice)) := by
  simp only [JobSystem.step, CrossQueue.schedule, if_neg hraised, hpoint]
  by_cases hr : w.jobs.call.raised
  · rw [InferQueue.get, CrossQueue.getBy, if_pos hr]
    exact h
  rcases Action.exec_map (q.called w.jobs agent) (InferQueue.get q 0 w.jobs.call)
      (.consumer 0) w.ring w.jobs.call w.jobs
    with heq | ⟨heq, -⟩
  · rw [heq]
    exact h.get_exec hkey hr hpoint
  · rw [heq]
    exact h

/-- Every step of either side. -/
theorem Serving.step (h : Serving q items w) (hread : ∀ n, items n = asRead (sent n)) (hkey : 0 < q.frontKeys)
    (turn : JobTurn) : Serving q items (w.step q sent turn) := by
  cases turn with
  | producer => exact h.put_step hread hkey
  | consumer choice =>
    by_cases hraised : w.jobs.raised
    · rw [JobSystem.step, CrossQueue.schedule, if_pos hraised]
      exact h
    · cases hpoint : w.jobs.point with
      | get agent => exact h.get_step hkey choice hraised hpoint
      | timeReleaseRear => exact h.chosen_step choice hraised (h.idle (by simp [hpoint])) hpoint
      | timeAcquireRear | timeReadRear | timeAcquireFront | timeReadFront | timeReadTime | timeReleaseFront =>
        exact h.gettime_step hkey choice hraised (h.idle (by simp [hpoint])) (by simp [hpoint])
      | _ => exact h.size_step choice hraised (h.idle (by simp [hpoint])) (by simp [hpoint])

/-- The invariant holds of the queue that has just been created. -/
theorem Serving.create (q : CrossQueue τ) (items : Nat → Bytes × τ) : Serving q items q.createJobs where
  inv := by
    have hinv := create_inv q .infer items
    have hcallers : callers ({} : Consumer τ) = fun _ => {} := by
      unfold callers
      rw [Function.update_eq_self]
    exact hcallers ▸ hinv
  selecting := {
    object := fun _ => ⟨(readInt_replicate q.isDigit_blank 32 0).trans (Nat.zero_mod _).symm,
      (readInt_replicate q.isDigit_blank 32 0).trans (Nat.zero_mod _).symm⟩
    holdsRear := nofun
    holdsFront := nofun
    rear := nofun
    timed := nofun
    room := nofun
    top := Nat.one_pos }
  idle := fun _ => rfl

/-- The invariant holds in every run. -/
theorem Serving.run (sent : Nat → Bytes × τ) (hkey : 0 < q.frontKeys) (turns : List JobTurn) :
    Serving q (fun n => asRead (sent n)) (JobSystem.run q sent turns) := by
  unfold JobSystem.run
  induction turns using List.reverseRecOn with
  | nil => exact Serving.create q _
  | append_singleton turns turn ih =>
    rw [List.foldl_append]
    exact ih.step (fun _ => rfl) hkey turn

/-! The identity of the jobs. -/

/-- A step of `size` and `gettime` moves no front, ends no job, and goes on to a `get` only from the end of
`gettime`, with the head of the list. -/
theorem select_step (q : CrossQueue τ) (sent : Nat → Bytes × τ) (hraised : ¬ w.jobs.raised)
    (hpoint : ∀ agent, w.jobs.point ≠ .get agent) (choice : Choice) :
    let w' := w.step q sent (.consumer choice)
    w'.ring.history = w.ring.history ∧ w'.jobs.jobs = w.jobs.jobs ∧
      (w.jobs.call.point = .acquireRear → w'.jobs.call.point = .acquireRear) ∧
      ∀ agent, w'.jobs.point = .get agent → w.jobs.point = .timeReleaseRear ∧ w.jobs.times.length = w.jobs.top ∧
        w'.jobs.startTime = w.jobs.times.head? := by
  simp only [JobSystem.step, CrossQueue.schedule, if_neg hraised]
  cases hp : w.jobs.point with
  | get agent => exact absurd hp (hpoint agent)
  | sizeAcquireFront | sizeAcquireRear | timeAcquireRear | timeAcquireFront =>
    dsimp only [Action.exec]
    split_ifs <;> simp [hp]
  | sizeReleaseRear =>
    dsimp only [Action.exec]
    split_ifs <;> simp
  | timeReadFront =>
    dsimp only [Action.exec, Jobs.nextTime, Jobs.cache]
    split_ifs <;> simp
  | timeReadTime =>
    dsimp only
    split_ifs
    · dsimp only [Action.exec]
      split
      · dsimp only [Jobs.nextTime]
        split_ifs <;> simp
      · simp
    · simp [Action.exec, hp]
  | timeReleaseRear =>
    dsimp only [Action.exec, Jobs.chosen]
    split_ifs with hlength
    · cases choice.agent <;> simp [Jobs.begin, hlength]
    · simp
  | _ => simp [Action.exec, Jobs.cache]

private theorem JobInv.select_step (h : JobInv q items w) (hkey : 0 < q.frontKeys)
    (hclean : ∀ n, SentinelFree (items n).1) (choice : Choice) (hraised : ¬ w.jobs.raised)
    (hpoint : ∀ agent, w.jobs.point ≠ .get agent) : JobInv q items (w.step q items (.consumer choice)) := by
  obtain ⟨hhistory, hjobs, hcall, hget⟩ := Computing.select_step q items hraised hpoint choice
  have hidle := hcall (h.idle hpoint)
  refine ⟨h.toServing.step (fun n => (asRead_eq (hclean n)).symm) hkey _, fun agent hagent _ => ?_, fun hunlock => ?_,
    h.identified.mono hjobs (by rw [hhistory])⟩
  · obtain ⟨hend, hlength, hstart⟩ := hget agent hagent
    obtain ⟨top, htop⟩ := Nat.exists_eq_succ_of_ne_zero h.selecting.top.ne'
    rw [hhistory, hstart, (h.selecting.timed (by simp [hend])).times, hlength, htop, List.range_succ_eq_map]
    rfl
  · rw [hidle] at hunlock
    cases hunlock

private theorem JobInv.calling (h : JobInv q items w) {agent : Agent} (hunlock : w.jobs.call.point ≠ .unlockFront)
    {ring' : Ring} {call' : Consumer τ}
    (hserving : Serving q items ⟨ring', w.producer, q.called w.jobs agent call'⟩)
    (hhistory : w.ring.history 0 <+: ring'.history 0)
    (hstart : call'.point ≠ .unlockFront → w.jobs.startTime = some (items (ring'.history 0).length).2)
    (hremoved : call'.point = .unlockFront → ∃ n, (ring'.history 0)[n]? = some .taken ∧ call'.data = (items n).1 ∧
      call'.timestamp = some (items n).2 ∧ w.jobs.startTime = some (items n).2) :
    JobInv q items ⟨ring', w.producer, q.called w.jobs agent call'⟩ := by
  rw [CrossQueue.called, if_neg fun hshaped => hunlock hshaped.1] at hserving ⊢
  exact ⟨hserving, fun _ _ hcall => hstart hcall, hremoved, h.identified.mono rfl hhistory⟩

private theorem JobInv.returns (h : JobInv q items w) {agent : Agent} (hunlock : w.jobs.call.point = .unlockFront)
    (hshaped : q.Shaped w.jobs.call.data) {ring' : Ring} (hhistory : ring'.history = w.ring.history)
    (hserving : Serving q items ⟨ring', w.producer, q.called w.jobs agent (q.finish w.jobs.call)⟩) :
    JobInv q items ⟨ring', w.producer, q.called w.jobs agent (q.finish w.jobs.call)⟩ := by
  obtain ⟨n, htaken, hdata, htime, hstart⟩ := h.removed hunlock
  rw [CrossQueue.called, if_pos ⟨hunlock, hshaped⟩] at hserving ⊢
  refine ⟨hserving, nofun, nofun, fun job hjob => ?_⟩
  dsimp only at hjob ⊢
  rw [hhistory]
  rw [htime, List.mem_append] at hjob
  rcases hjob with hold | hnew
  · exact h.identified job hold
  · obtain rfl := List.mem_singleton.mp hnew
    exact ⟨n, htaken, Prod.ext hdata rfl, hstart⟩

private theorem JobInv.get_step (h : JobInv q items w) (hkey : 0 < q.frontKeys) (choice : Choice)
    (hraised : ¬ w.jobs.raised) {agent : Agent} (hpoint : w.jobs.point = .get agent)
    (hkept : w.kept q (.consumer choice)) : JobInv q items (w.step q items (.consumer choice)) := by
  simp only [JobSystem.step, CrossQueue.schedule, if_neg hraised, hpoint]
  by_cases hr : w.jobs.call.raised
  · rw [InferQueue.get, CrossQueue.getBy, if_pos hr]
    exact h
  have hserving := h.toServing.get_exec hkey hr hpoint
  have hcaller := h.inv.key 0 hkey
  rw [callers_zero] at hcaller
  rcases Action.exec_map (q.called w.jobs agent) (InferQueue.get q 0 w.jobs.call)
      (.consumer 0) w.ring w.jobs.call w.jobs
    with heq | ⟨heq, -⟩
  · rw [heq]
    by_cases hunlock : w.jobs.call.point = .unlockFront
    · have hshaped : q.Shaped w.jobs.call.data := by simpa [JobSystem.kept, hpoint, hunlock] using hkept
      rw [exec_unlockFront w.ring hr hunlock] at hserving ⊢
      exact h.returns hunlock hshaped rfl hserving
    · have hstart := h.startTime agent hpoint hunlock
      by_cases hwrite : w.jobs.call.point = .writeFront
      · rcases exec_writeFront (q := q) w.ring hr hwrite with ⟨text, hw, hexec⟩ | hexec
        · rw [hexec] at hserving ⊢
          refine h.calling hunlock hserving ?_ (fun hcall => absurd rfl hcall) fun _ => ?_
          · simp [logMove]
          · refine ⟨_, ?_, hcaller.data (by simp [hwrite]), hcaller.time (by simp [hwrite]), hstart⟩
            simp [logMove]
        · rw [hexec] at hserving ⊢
          exact h.calling hunlock hserving List.prefix_rfl (fun _ => hstart) fun hcall => absurd hcall hunlock
      · obtain ⟨-, hhistory⟩ := get_keeps (q := q) w.ring hwrite
        refine h.calling hunlock hserving ?_ (fun _ => ?_)
          fun hcall => absurd hcall (get_point w.ring hwrite hunlock)
        · rw [hhistory]
        · rw [hhistory]
          exact hstart
  · rw [heq]
    exact h

/-- Every step that keeps the head that was chosen keeps the invariant. -/
theorem JobInv.step (h : JobInv q items w) (hclean : ∀ n, SentinelFree (items n).1) (hkey : 0 < q.frontKeys)
    {turn : JobTurn} (hkept : w.kept q turn) : JobInv q items (w.step q items turn) := by
  cases turn with
  | producer => exact h.put_step hclean hkey hkept
  | consumer choice =>
    by_cases hraised : w.jobs.raised
    · rw [JobSystem.step, CrossQueue.schedule, if_pos hraised]
      exact h
    · by_cases hpoint : ∃ agent, w.jobs.point = .get agent
      · obtain ⟨agent, hagent⟩ := hpoint
        exact h.get_step hkey choice hraised hagent hkept
      · exact h.select_step hkey hclean choice hraised (not_exists.mp hpoint)

/-- No job has been recorded of the queue that has just been created. -/
theorem JobInv.create (q : CrossQueue τ) (items : Nat → Bytes × τ) : JobInv q items q.createJobs :=
  ⟨Serving.create q items, nofun, nofun, nofun⟩

end Soar.Computing
