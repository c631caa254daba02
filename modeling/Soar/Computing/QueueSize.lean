import Soar.Computing.ConsumerCorrectness
import Soar.Computing.JobSteps

/-! What `size` returns while puts go on. It reads the front first, and the rear under another lock. -/
namespace Soar.Computing
open Soar.Library

section
variable {τ : Type}

/-- How often the front has moved. -/
def JobSystem.moves (w : JobSystem τ) : Nat := (w.ring.history 0).length

/-- The items in front of which the front still is. -/
def JobSystem.unread (w : JobSystem τ) : Nat := w.producer.count - w.moves

/-- What `size` returns for a single key, of the indices that it has cached. -/
def CrossQueue.returnedSize (q : CrossQueue τ) (cache : Cache) : Nat :=
  (cache.rear + q.maxLength - cache.front) % q.maxLength

/-- At least `n` items are in the queue, with the one being put once its put has checked the front. -/
structure JobSystem.AtLeast (w : JobSystem τ) (n : Nat) : Prop where
  le : w.moves + n ≤ w.producer.count + 1
  unchecked : ¬ w.producer.point.checked 0 → w.moves + n ≤ w.producer.count

/-- A step that moves no front and no rear, the overflow branch on a full ring, or the end of a put. -/
inductive Turned (q : CrossQueue τ) (w w' : JobSystem τ) : Prop
  | kept (moves : w'.moves = w.moves) (count : w'.producer.count = w.producer.count)
      (checked : w.producer.point.checked 0 → w'.producer.point.checked 0)
  | overflowed (full : w.producer.count + 1 = w.moves + q.maxLength) (moves : w'.moves = w.moves + 1)
      (count : w'.producer.count = w.producer.count) (checked : w'.producer.point.checked 0)
      (unchecked : ¬ w.producer.point.checked 0)
  | ended (checked : w.producer.point.checked 0) (moves : w'.moves = w.moves)
      (count : w'.producer.count = w.producer.count + 1)

variable {q : CrossQueue τ} {items sent : Nat → Bytes × τ} {w : JobSystem τ}

private theorem checked_nextKey (q : CrossQueue τ) (k : Nat) : (q.nextKey (k + 1)).checked 0 := by
  unfold CrossQueue.nextKey
  split_ifs <;> simp

/-- A step of the producer puts an item, moves the front of a full ring, or keeps what the queue holds. -/
theorem Serving.put_turned (h : Serving q items w) (hkey : 0 < q.frontKeys) : Turned q w (w.step q sent .producer) := by
  simp only [JobSystem.step, CrossQueue.put]
  by_cases hr : w.producer.raised
  · rw [if_pos hr]
    exact .kept rfl rfl id
  rw [if_neg hr]
  have hkept : Turned q w w := .kept rfl rfl id
  cases hp : w.producer.point with
  | acquireRear | acquireFront =>
    dsimp only [Action.exec]
    split_ifs
    · exact .kept rfl rfl (by simp [hp])
    · exact hkept
  | writeData =>
    dsimp only
    split_ifs
    · rw [Action.exec]
      split
      · exact .kept rfl rfl (by simp [hp])
      · exact .kept rfl rfl (by simp [hp])
    · exact hkept
  | writeTime =>
    rw [Action.exec]
    split
    · exact .kept rfl rfl (by simp [hp])
    · exact .kept rfl rfl (by simp [hp])
  | readFront k =>
    refine .kept rfl rfl ?_
    dsimp only [Action.exec]
    split_ifs
    · simp [hp]
    · simp [hp]
  | releaseFront k => exact .kept rfl rfl fun _ => checked_nextKey q k
  | writeFront k =>
    rw [Action.exec]
    split
    · by_cases hk : k = 0
      · subst hk
        refine .overflowed ((h.inv.key 0 hkey).full hp).2 ?_ rfl (le_refl 0) (by simp [hp])
        simp [JobSystem.moves, logMove]
      · refine .kept ?_ rfl (by simp [hp])
        simp [JobSystem.moves, logMove, Ne.symm hk]
    · exact .kept rfl rfl (by simp [hp])
  | writeRear =>
    rw [Action.exec]
    split
    · exact .ended (by simp [hp]) rfl rfl
    · exact .kept rfl rfl (by simp [hp])
  | _ => exact .kept rfl rfl (by simp [hp, Action.exec])

/-- While no consumer runs `get`. -/
theorem Serving.turned (h : Serving q items w) (hkey : 0 < q.frontKeys) (hpoint : ∀ agent, w.jobs.point ≠ .get agent)
    (turn : JobTurn) : Turned q w (w.step q sent turn) := by
  cases turn with
  | producer => exact h.put_turned hkey
  | consumer choice =>
    by_cases hraised : w.jobs.raised
    · rw [JobSystem.step, CrossQueue.schedule, if_pos hraised]
      exact .kept rfl rfl id
    · obtain ⟨hhistory, -⟩ := select_step q sent hraised hpoint choice
      refine .kept ?_ rfl id
      rw [JobSystem.moves, hhistory]
      rfl

variable {w' : JobSystem τ} {n : Nat}

theorem JobSystem.AtLeast.mono {m : Nat} (h : w.AtLeast n) (hle : m ≤ n) : w.AtLeast m := by
  refine ⟨?_, fun hchecked => ?_⟩
  · have hn := h.le
    omega
  · have hn := h.unchecked hchecked
    omega

/-- Puts only add to the queue, and an overflow leaves it full. -/
theorem Turned.atLeast (ht : Turned q w w') (h : w.AtLeast n) : w'.AtLeast n := by
  have hle := h.le
  cases ht with
  | kept hmoves hcount hchecked =>
    refine ⟨by omega, fun hn => ?_⟩
    have hun := h.unchecked (mt hchecked hn)
    omega
  | overflowed hfull hmoves hcount hchecked hun =>
    have hn := h.unchecked hun
    exact ⟨by omega, fun hn => absurd hchecked hn⟩
  | ended hchecked hmoves hcount => exact ⟨by omega, fun _ => by omega⟩

/-- A front moves only when the ring has been full. -/
theorem Turned.full (ht : Turned q w w') (hmoved : w'.moves ≠ w.moves) : w'.AtLeast (q.maxLength - 1) := by
  have htwo := q.two_le_maxLength
  cases ht with
  | overflowed hfull hmoves hcount hchecked hun => exact ⟨by omega, fun hn => absurd hchecked hn⟩
  | kept hmoves => exact absurd hmoves hmoved
  | ended hchecked hmoves => exact absurd hmoves hmoved

theorem Turned.moves_le (ht : Turned q w w') : w.moves ≤ w'.moves := by
  cases ht <;> omega

theorem Turned.unread_le (ht : Turned q w w') : w'.unread ≤ w.unread + 1 := by
  unfold JobSystem.unread
  cases ht <;> omega

/-- Only from a full ring does the number of unread items fall. -/
theorem Turned.le_unread (ht : Turned q w w') (hn : n ≤ w.unread) (hroom : n ≤ q.maxLength - 2) : n ≤ w'.unread := by
  unfold JobSystem.unread at *
  cases ht <;> omega

/-- While the scheduler holds the rear, no put is under way. -/
theorem Serving.idle_put (h : Serving q items w) (hkey : 0 < q.frontKeys) (hrear : w.jobs.point.holdsRear) :
    ¬ w.producer.point.checked 0 ∧ w.moves ≤ w.producer.count ∧ w.producer.count + 1 ≤ w.moves + q.maxLength := by
  have hpoint := h.inv.put.point_of_holder Process.noConfusion (h.selecting.holdsRear hrear)
  have hunchecked : ¬ w.producer.point.checked 0 := by simp [hpoint]
  exact ⟨hunchecked, (h.inv.key 0 hkey).le_unchecked hunchecked, (h.inv.key 0 hkey).room⟩

/-! The two reads of `size`. -/

/-- Since `size` has read the front, at `F` moves, it has not moved or the ring has been full. -/
structure SizeRead (q : CrossQueue τ) (F : Nat) (w : JobSystem τ) : Prop where
  front : (w.jobs.object .scheduler).front = F % q.maxLength
  le : F ≤ w.moves
  since : w.moves = F ∨ w.AtLeast (q.maxLength - 1)
  rear : w.jobs.point = .sizeReleaseRear → (w.jobs.object .scheduler).rear = w.producer.count % q.maxLength

/-- `size` has read the front and has yet to read the rear. -/
def JobPoint.betweenReads (p : JobPoint) : Prop := p ∈ [sizeReleaseFront, sizeAcquireRear, sizeReadRear]

instance (p : JobPoint) : Decidable p.betweenReads := List.instDecidableMemOfLawfulBEq ..

theorem JobPoint.betweenReads.not_get {p : JobPoint} (h : p.betweenReads) (agent : Agent) : p ≠ .get agent := by
  rintro rfl
  simp [betweenReads] at h

theorem Serving.readsFront (h : Serving q items w) (hraised : ¬ w.jobs.raised) (hpoint : w.jobs.point = .sizeReadFront)
    (choice : Choice) : SizeRead q w.moves (w.step q sent (.consumer choice)) := by
  simp only [JobSystem.step, CrossQueue.schedule, if_neg hraised, hpoint, Action.exec]
  refine ⟨?_, le_rfl, .inl rfl, JobPoint.noConfusion⟩
  dsimp only [Jobs.cache]
  rw [Function.update_self]
  exact (h.selecting.object .scheduler).front

theorem SizeRead.turned {F : Nat} (hread : SizeRead q F w) (ht : Turned q w w')
    (hfront : (w'.jobs.object .scheduler).front = (w.jobs.object .scheduler).front)
    (hrear : w'.jobs.point = .sizeReleaseRear → (w'.jobs.object .scheduler).rear = w'.producer.count % q.maxLength) :
    SizeRead q F w' := by
  refine ⟨hfront.trans hread.front, hread.le.trans ht.moves_le, ?_, hrear⟩
  by_cases hmoved : w'.moves = w.moves
  · exact hread.since.imp hmoved.trans ht.atLeast
  · exact .inr (ht.full hmoved)

/-- What `size` has read of the front stays true until it reads the rear. -/
theorem SizeRead.step {F : Nat} (hread : SizeRead q F w) (h : Serving q items w) (hkey : 0 < q.frontKeys)
    (hpoint : w.jobs.point.betweenReads) (turn : JobTurn) : SizeRead q F (w.step q sent turn) := by
  have ht : Turned q w (w.step q sent turn) := h.turned hkey hpoint.not_get turn
  cases turn with
  | producer =>
    apply hread.turned ht rfl
    intro hrear
    rw [show w.jobs.point = _ from hrear] at hpoint
    simp [JobPoint.betweenReads] at hpoint
  | consumer choice =>
    by_cases hraised : w.jobs.raised
    · rw [JobSystem.step, CrossQueue.schedule, if_pos hraised]
      exact hread
    · simp only [JobSystem.step, CrossQueue.schedule, if_neg hraised] at ht ⊢
      cases hp : w.jobs.point <;> simp only [hp, JobPoint.betweenReads, List.mem_cons, reduceCtorEq, List.not_mem_nil,
        or_false, false_or, or_self] at hpoint
      case sizeReleaseFront => exact hread.turned (by simpa only [hp] using ht) rfl JobPoint.noConfusion
      case sizeAcquireRear =>
        refine hread.turned (by simpa only [hp] using ht) ?_ ?_
        · dsimp only [Action.exec]
          split_ifs <;> rfl
        · dsimp only [Action.exec]
          split_ifs
          · exact False.elim
          · simp [hp]
      case sizeReadRear =>
        refine hread.turned (by simpa only [hp] using ht) ?_ fun _ => ?_
        · dsimp only [Action.exec, Jobs.cache]
          rw [Function.update_self]
        · dsimp only [Action.exec, Jobs.cache]
          rw [Function.update_self]
          exact (h.selecting.object .scheduler).rear

private theorem sub_mod_ring {a b n : Nat} (hn : 0 < n) (hle : a ≤ b) : (b % n + n - a % n) % n = (b - a) % n := by
  obtain ⟨e, rfl⟩ := Nat.exists_eq_add_of_le hle
  have hlt := Nat.mod_lt a hn
  have hcancel : (a + e) % n + n - a % n + a % n ≡ e + a % n [MOD n] := by
    rw [Nat.sub_add_cancel (by omega)]
    refine (Nat.ModEq.trans ?_ (Nat.mod_modEq (a + e) n)).trans ?_
    · exact Nat.add_modEq_right
    · rw [Nat.add_comm a e]
      exact Nat.ModEq.add_left e (Nat.mod_modEq a n).symm
  rw [Nat.add_sub_cancel_left]
  exact Nat.ModEq.add_right_cancel' _ hcancel

/-- The number that `size` returns: what is unread then, unless the front has moved since it was read. -/
theorem SizeRead.returnedSize_eq {F : Nat} (hread : SizeRead q F w) (h : Serving q items w) (hkey : 0 < q.frontKeys)
    (hpoint : w.jobs.point = .sizeReleaseRear) :
    q.returnedSize (w.jobs.object .scheduler) = if w.moves = F then w.unread else (w.moves - F - 1) % q.maxLength := by
  have htwo := q.two_le_maxLength
  obtain ⟨hunchecked, hle, hroom⟩ := h.idle_put hkey (by simp [hpoint])
  have hF := hread.le
  rw [CrossQueue.returnedSize, hread.rear hpoint, hread.front, sub_mod_ring (by omega) (hF.trans hle)]
  split_ifs with hmoved
  · rw [← hmoved]
    exact Nat.mod_eq_of_lt (by omega)
  · have hfull := (hread.since.resolve_left hmoved).unchecked hunchecked
    rw [show w.producer.count - F = w.moves - F - 1 + q.maxLength by omega, Nat.add_mod_right]

/-- A call of `size` that has read the front after the turns `before` and the rear after `after`. -/
structure SizeCall (q : CrossQueue τ) (sent : Nat → Bytes × τ) (w : JobSystem τ) (before after : List JobTurn) :
    Prop where
  called : w.jobs.point = .sizeAcquireFront
  untilFront : AlongRun (JobSystem.step q sent) (fun w _ => w.jobs.point ∈
      [JobPoint.sizeAcquireFront, .sizeReadFront]) w
    before
  front : (before.foldl (JobSystem.step q sent) w).jobs.point = .sizeReleaseFront
  untilRear : AlongRun (JobSystem.step q sent) (fun w _ => w.jobs.point.betweenReads)
    (before.foldl (JobSystem.step q sent) w) after
  rear : ((before ++ after).foldl (JobSystem.step q sent) w).jobs.point = .sizeReleaseRear

/-- There were `n` unread items at some moment of the run. -/
def Held (q : CrossQueue τ) (sent : Nat → Bytes × τ) (w : JobSystem τ) (turns : List JobTurn) (n : Nat) : Prop :=
  ∃ m ≤ turns.length, ((turns.take m).foldl (JobSystem.step q sent) w).unread = n

/-- Every step of the run is one of a put or of the scheduler outside `get`. -/
private def TurnedRun (q : CrossQueue τ) (sent : Nat → Bytes × τ) (w : JobSystem τ) (turns : List JobTurn) : Prop :=
  AlongRun (JobSystem.step q sent) (fun w turn => Turned q w (w.step q sent turn)) w turns

private theorem Serving.turnedRun (h : Serving q (fun n => asRead (sent n)) w) (hkey : 0 < q.frontKeys)
    {P : JobPoint → Prop} (hP : ∀ p, P p → ∀ agent, p ≠ .get agent) {turns : List JobTurn}
    (hturns : AlongRun (JobSystem.step q sent) (fun w _ => P w.jobs.point) w turns) : TurnedRun q sent w turns := by
  have hserving : ∀ (w : JobSystem τ) (turn : JobTurn), Serving q (fun n => asRead (sent n)) w → P w.jobs.point →
      Serving q (fun n => asRead (sent n)) (w.step q sent turn) := fun w turn h _ => h.step (fun _ => rfl) hkey turn
  exact hturns.of_inv hserving (fun w turn h hpoint => h.turned hkey (hP _ hpoint) turn) h

private theorem TurnedRun.held_of_moved {turns : List JobTurn} (h : TurnedRun q sent w turns)
    (hmoved : (turns.foldl (JobSystem.step q sent) w).moves ≠ w.moves) : Held q sent w turns (q.maxLength - 2) := by
  induction turns generalizing w with
  | nil => exact absurd rfl hmoved
  | cons turn turns ih =>
    by_cases hfirst : (w.step q sent turn).moves = w.moves
    · obtain ⟨m, hm, heq⟩ := ih h.2 fun he => hmoved (he.trans hfirst)
      exact ⟨m + 1, Nat.succ_le_succ hm, heq⟩
    · refine ⟨1, Nat.succ_le_succ (Nat.zero_le _), ?_⟩
      have hturned : Turned q w (w.step q sent turn) := h.1
      show (w.step q sent turn).unread = q.maxLength - 2
      unfold JobSystem.unread
      cases hturned with
      | overflowed hfull hmoves hcount => omega
      | kept hmoves => exact absurd hmoves hfirst
      | ended _ hmoves => exact absurd hmoves hfirst

private theorem TurnedRun.held_iff {turns : List JobTurn} (h : TurnedRun q sent w turns)
    (hmoved : (turns.foldl (JobSystem.step q sent) w).moves ≠ w.moves)
    (hfull : (turns.foldl (JobSystem.step q sent) w).unread = q.maxLength - 1) (hroom : w.unread ≤ q.maxLength - 1)
    {n : Nat} (hn : n < q.maxLength) : Held q sent w turns n ↔ min w.unread (q.maxLength - 2) ≤ n := by
  constructor
  · rintro ⟨m, -, rfl⟩
    exact @AlongRun.inv _ _ _ _ (fun w' : JobSystem τ => min w.unread (q.maxLength - 2) ≤ w'.unread)
      (fun _ _ hle hturned => hturned.le_unread hle (Nat.min_le_right ..)) _ (Nat.min_le_left ..) _ (h.take m)
  · intro hle
    by_cases hstart : w.unread ≤ n
    · exact (h.mono fun _ _ hturned => hturned.unread_le).exists_take_eq hstart (by omega)
    · obtain rfl : n = q.maxLength - 2 := by omega
      exact h.held_of_moved hmoved

/-- `size` on its way to the front. -/
private def JobPoint.beforeFront (p : JobPoint) : Prop := p ∈ [sizeAcquireFront, sizeReadFront]

private theorem JobPoint.beforeFront.not_get {p : JobPoint} (h : p.beforeFront) (agent : Agent) : p ≠ .get agent := by
  rintro rfl
  simp [beforeFront] at h

private theorem Serving.before_step (h : Serving q items w) (hpoint : w.jobs.point.beforeFront) (turn : JobTurn) :
    let w' := w.step q sent turn
    w'.jobs.point.beforeFront ∨ SizeRead q w'.moves w' := by
  intro w'
  cases turn with
  | producer => exact .inl hpoint
  | consumer choice =>
    by_cases hraised : w.jobs.raised
    · rw [show w' = w by simp only [w', JobSystem.step, CrossQueue.schedule, if_pos hraised]; rfl]
      exact .inl hpoint
    · rcases List.mem_pair.mp hpoint with hp | hp
      · refine .inl ?_
        simp only [w', JobSystem.step, CrossQueue.schedule, if_neg hraised, hp, Action.exec]
        split_ifs
        · exact List.mem_cons_of_mem _ (List.mem_singleton_self _)
        · exact hpoint
      · have hread : SizeRead q w.moves w' := h.readsFront hraised hp choice
        have hmoves : w'.moves = w.moves := by
          simp only [w', JobSystem.step, CrossQueue.schedule, if_neg hraised, hp, Action.exec]
          rfl
        exact .inr (hmoves ▸ hread)

private theorem SizeCall.reads {before after : List JobTurn} (hcall : SizeCall q sent w before after)
    (h : Serving q (fun n => asRead (sent n)) w) (hkey : 0 < q.frontKeys) :
    let w₁ := before.foldl (JobSystem.step q sent) w
    let w₂ := (before ++ after).foldl (JobSystem.step q sent) w
    Serving q (fun n => asRead (sent n)) w₁ ∧ Serving q (fun n => asRead (sent n)) w₂ ∧ SizeRead q w₁.moves w₂ := by
  intro w₁ w₂
  have hstart : w.jobs.point.beforeFront := by
    rw [hcall.called]
    exact List.mem_cons_self ..
  obtain ⟨hserving, hfirst⟩ := @AlongRun.inv _ _ _ _
    (fun w : JobSystem τ => Serving q (fun n => asRead (sent n)) w ∧ (w.jobs.point.beforeFront ∨ SizeRead q w.moves w))
    (fun w turn hinv hpoint => ⟨hinv.1.step (fun _ => rfl) hkey turn, hinv.1.before_step hpoint turn⟩) w
      ⟨h, .inl hstart⟩ _
    hcall.untilFront
  have hread : SizeRead q w₁.moves w₁ := hfirst.resolve_left fun hpoint => by
    rw [hcall.front] at hpoint
    simp [JobPoint.beforeFront] at hpoint
  have hsecond := @AlongRun.inv _ _ _ _
    (fun w : JobSystem τ => Serving q (fun n => asRead (sent n)) w ∧ SizeRead q w₁.moves w)
    (fun w turn hinv hpoint => ⟨hinv.1.step (fun _ => rfl) hkey turn, hinv.2.step hinv.1 hkey hpoint turn⟩) w₁
    ⟨hserving, hread⟩ _ hcall.untilRear
  rw [← List.foldl_append] at hsecond
  exact ⟨hserving, hsecond⟩

private theorem TurnedRun.moves_le {turns : List JobTurn} (h : TurnedRun q sent w turns) :
    w.moves ≤ (turns.foldl (JobSystem.step q sent) w).moves :=
  @AlongRun.inv _ _ _ _ (fun w' : JobSystem τ => w.moves ≤ w'.moves)
      (fun _ _ hle ht => hle.trans ht.moves_le) w le_rfl _ h

/-- What `size` returns is what the queue held at some moment of the call if and only if no overflow has moved
the front between the two reads, or it has moved so often that the remainder is that of a fill. -/
theorem size_held_iff (q : CrossQueue τ) (sent : Nat → Bytes × τ) (hkey : q.frontKeys = 1) (turns : List JobTurn)
    (before after : List JobTurn) (hcall : SizeCall q sent (JobSystem.run q sent turns) before after) :
    let w := JobSystem.run q sent turns
    let front := before.foldl (JobSystem.step q sent) w
    let rear := (before ++ after).foldl (JobSystem.step q sent) w
    Held q sent w (before ++ after) (q.returnedSize (rear.jobs.object .scheduler)) ↔
      rear.moves = front.moves ∨ min w.unread (q.maxLength - 2) ≤ (rear.moves - front.moves - 1) % q.maxLength := by
  intro w front rear
  have htwo := q.two_le_maxLength
  have hpos : 0 < q.frontKeys := hkey ▸ Nat.one_pos
  have hserving : Serving q (fun n => asRead (sent n)) w := Serving.run sent hpos turns
  obtain ⟨hfront, hend, hread⟩ := hcall.reads hserving hpos
  rw [hread.returnedSize_eq hend hpos hcall.rear]
  by_cases hmoved : rear.moves = front.moves
  · rw [if_pos hmoved]
    exact iff_of_true ⟨_, le_rfl, by rw [List.take_length]⟩ (.inl hmoved)
  · rw [if_neg hmoved, or_iff_right hmoved]
    have hfirst := hserving.turnedRun hpos (fun _ => JobPoint.beforeFront.not_get) hcall.untilFront
    have hrun : TurnedRun q sent w (before ++ after) :=
      hfirst.append (hfront.turnedRun hpos (fun _ => JobPoint.betweenReads.not_get) hcall.untilRear)
    obtain ⟨hunchecked, -, hendRoom⟩ := hend.idle_put hpos (by rw [hcall.rear]; trivial)
    have hendRoom : rear.producer.count + 1 ≤ rear.moves + q.maxLength := hendRoom
    have hatLeast : rear.moves + (q.maxLength - 1) ≤ rear.producer.count :=
      (hread.since.resolve_left hmoved).unchecked hunchecked
    refine hrun.held_iff (fun heq => hmoved (le_antisymm (heq ▸ hfirst.moves_le) hread.le)) ?_ ?_
      (Nat.mod_lt _ (by omega))
    · show rear.producer.count - rear.moves = q.maxLength - 1
      omega
    · have hroom : w.producer.count + 1 ≤ w.moves + q.maxLength := (hserving.inv.key 0 hpos).room
      show w.producer.count - w.moves ≤ q.maxLength - 1
      omega

end

private theorem two_le_three : 2 ≤ 3 := by
  decide

private theorem isDigit_zero : isDigit 0 = false := by
  decide

/-- A ring with room for two items. -/
def threeSlots : CrossQueue (Fin (2 ^ 53)) :=
  { twoSlots 1 with maxLength := 3, two_le_maxLength := two_le_three, blank := 0, isDigit_blank := isDigit_zero }

/-- After one put: `size` reads the front, a put enters a second item, `size` reads the rear. -/
def putBetweenReads : List JobTurn :=
  .consumer .skip :: List.replicate 9 .producer ++ List.replicate 2 (.consumer .skip)

/-- A put between the two reads: `size` returns 2, which the queue holds at the end. -/
theorem size_held_iff_putBetweenReads :
    let w := JobSystem.run threeSlots payloads (List.replicate 9 .producer)
    let before := List.replicate 2 (JobTurn.consumer .skip)
    let rear := (before ++ putBetweenReads).foldl (JobSystem.step threeSlots payloads) w
    w.unread = 1 ∧ threeSlots.returnedSize (rear.jobs.object .scheduler) = 2 ∧
      Held threeSlots payloads w (before ++ putBetweenReads)
        (threeSlots.returnedSize (rear.jobs.object .scheduler)) := by
  have hcall : SizeCall threeSlots payloads (JobSystem.run threeSlots payloads (List.replicate 9 .producer))
      (List.replicate 2 (.consumer .skip)) putBetweenReads :=
    ⟨by decide +kernel, by decide +kernel, by decide +kernel, by decide +kernel, by decide +kernel⟩
  have hiff := size_held_iff threeSlots payloads rfl (List.replicate 9 .producer) _ putBetweenReads hcall
  exact ⟨by decide +kernel, by decide +kernel, hiff.mpr (.inl (by decide +kernel))⟩

/-- After two puts: `size` reads the front, a put overflows, `size` reads the rear. -/
def overflowBetweenReads : List JobTurn :=
  .consumer .skip :: List.replicate 10 .producer ++ List.replicate 2 (.consumer .skip)

/-- `size` returns 0 of a queue that holds an item or two all the time. -/
theorem not_size_held_overflow :
    let w := JobSystem.run threeSlots payloads (List.replicate 18 .producer)
    let before := List.replicate 2 (JobTurn.consumer .skip)
    let rear := (before ++ overflowBetweenReads).foldl (JobSystem.step threeSlots payloads) w
    SizeCall threeSlots payloads w before overflowBetweenReads ∧
      threeSlots.returnedSize (rear.jobs.object .scheduler) = 0 ∧
      (∀ m ≤ (before ++ overflowBetweenReads).length,
        0 < (((before ++ overflowBetweenReads).take m).foldl (JobSystem.step threeSlots payloads) w).unread) ∧
      ¬ Held threeSlots payloads w (before ++ overflowBetweenReads)
        (threeSlots.returnedSize (rear.jobs.object .scheduler)) := by
  intro w before rear
  have hzero : threeSlots.returnedSize (rear.jobs.object .scheduler) = 0 := by decide +kernel
  have hunread : ∀ m ≤ (before ++ overflowBetweenReads).length,
      0 < (((before ++ overflowBetweenReads).take m).foldl (JobSystem.step threeSlots payloads) w).unread := by
    decide +kernel
  refine ⟨⟨by decide +kernel, by decide +kernel, by decide +kernel, by decide +kernel, by decide +kernel⟩, hzero,
      hunread, ?_⟩
  rw [hzero]
  rintro ⟨m, hm, heq⟩
  exact (hunread m hm).ne' heq

end Soar.Computing
