import Soar.Scheduler.Handshake

/-! What holds between the scheduler and the model processes after every step. -/
namespace Soar.Scheduler
open Soar.Library

variable {n : Nat}

namespace SchedulerPoint

@[simp] def HoldsStart : SchedulerPoint n → Prop
  | .setStart _ | .notifyStart _ | .releaseStart _ => True
  | _ => False

@[simp] def HoldsEnd : SchedulerPoint n → Prop
  | .checkEnd _ | .sleepEnd _ | .clearEnd _ | .releaseEnd _ => True
  | _ => False

/-- The variant whose start flag the scheduler has set and whose end flag it has not yet cleared. -/
def issued : SchedulerPoint n → Option (Model n)
  | .notifyStart m | .releaseStart m | .acquireEnd m | .checkEnd m | .sleepEnd m | .awaitEnd m | .clearEnd m => some m
  | _ => none

end SchedulerPoint

namespace InferPoint

@[simp] def HoldsStart : InferPoint → Prop
  | .checkStart | .sleepStart | .clearStart | .releaseStart => True
  | _ => False

@[simp] def HoldsEnd : InferPoint → Prop
  | .setEnd | .notifyEnd | .releaseEnd => True
  | _ => False

/-- Between consuming the start flag and setting the end flag. -/
def Running : InferPoint → Prop
  | .releaseStart | .readData | .detect | .acquireEnd | .setEnd => True
  | _ => False

end InferPoint

namespace World

@[simp] def HoldsStart (w : World n) : Party n → Prop
  | .scheduler => w.scheduler.HoldsStart
  | .infer m => (w.infer m).HoldsStart

@[simp] def HoldsEnd (w : World n) : Party n → Prop
  | .scheduler => w.scheduler.HoldsEnd
  | .infer m => (w.infer m).HoldsEnd

/-- The thread has its start flag set, is running, or has its end flag set. -/
def Busy (w : World n) (m : Model n) : Prop :=
  w.startFlag m.threadId = true ∨ (w.infer m).Running ∨ w.endFlag m.threadId = true

/-- Both mutexes are held by the parties that are between acquiring and releasing them. -/
structure Locks (w : World n) : Prop where
  start : ∀ p, w.startLock.holder = some p ↔ w.HoldsStart p
  stop : ∀ p, w.endLock.holder = some p ↔ w.HoldsEnd p
  start_waiting : ∀ p ∈ w.startLock.waiting, ∃ m, p = .infer m ∧ w.infer m = .awaitStart
  end_waiting : w.endLock.waiting = [] ∨ w.endLock.waiting = [.scheduler] ∧ ∃ m, w.scheduler = .awaitEnd m

@[simp] theorem goto_infer (w : World n) (m m' : Model n) (p : InferPoint) :
    (w.goto m p).infer m' = if m' = m then p else w.infer m' := by
  simp [goto, Function.update_apply]

@[simp] theorem goto_startLock (w : World n) (m : Model n) (p : InferPoint) : (w.goto m p).startLock = w.startLock :=
    rfl
@[simp] theorem goto_endLock (w : World n) (m : Model n) (p : InferPoint) : (w.goto m p).endLock = w.endLock := rfl
@[simp] theorem goto_startFlag (w : World n) (m : Model n) (p : InferPoint) : (w.goto m p).startFlag = w.startFlag :=
    rfl
@[simp] theorem goto_endFlag (w : World n) (m : Model n) (p : InferPoint) : (w.goto m p).endFlag = w.endFlag := rfl
@[simp] theorem goto_scheduler (w : World n) (m : Model n) (p : InferPoint) : (w.goto m p).scheduler = w.scheduler :=
    rfl
@[simp] theorem goto_history (w : World n) (m : Model n) (p : InferPoint) : (w.goto m p).history = w.history := rfl

section Frame

variable (w : World n) (decision : Decision n) (m : Model n)

@[simp] theorem stepScheduler_infer : (w.stepScheduler decision).infer = w.infer := by
  unfold stepScheduler
  split
  · split <;> rfl
  all_goals first | rfl | (split <;> rfl)

@[simp] theorem stepInfer_scheduler : (w.stepInfer m).scheduler = w.scheduler := by
  unfold stepInfer
  split
  all_goals first | rfl | (split <;> rfl)

theorem stepInfer_infer_of_ne {m' : Model n} (h : m' ≠ m) : (w.stepInfer m).infer m' = w.infer m' := by
  unfold stepInfer
  split
  all_goals first | simp [h] | (split <;> simp [h])

end Frame

/-- A step of the scheduler keeps the locks with those that are between acquire and release. -/
theorem Locks.stepScheduler {w : World n} (h : w.Locks) (decision : Decision n) : (w.stepScheduler decision).Locks where
  start := by
    refine Condition.holder_step h.start .scheduler (fun q hq => ?_) ?_
    · cases q with
      | scheduler => exact absurd rfl hq
      | infer m => simp
    · have hholds := h.start .scheduler
      cases hpoint : w.scheduler <;> simp only [World.stepScheduler, hpoint]
      all_goals try split
      all_goals simp_all [Condition.Free]
  stop := by
    refine Condition.holder_step h.stop .scheduler (fun q hq => ?_) ?_
    · cases q with
      | scheduler => exact absurd rfl hq
      | infer m => simp
    · have hholds := h.stop .scheduler
      cases hpoint : w.scheduler <;> simp only [World.stepScheduler, hpoint]
      all_goals try split
      all_goals simp_all [Condition.Free]
  start_waiting := by
    intro p hp
    rw [stepScheduler_infer]
    apply h.start_waiting p
    revert hp
    cases hpoint : w.scheduler <;> simp only [World.stepScheduler, hpoint]
    all_goals try split
    all_goals simp
  end_waiting := by
    have hwaiting := h.end_waiting
    cases hpoint : w.scheduler <;> simp only [World.stepScheduler, hpoint]
    all_goals try split
    case awaitEnd.isTrue hfree =>
      refine .inl (hwaiting.resolve_right fun hsleeps => hfree.2 ?_)
      rw [hsleeps.1]
      exact List.mem_singleton_self _
    all_goals simp_all [Condition.Free]

/-- So does a step of a process. -/
theorem Locks.stepInfer {w : World n} (h : w.Locks) (m : Model n) : (w.stepInfer m).Locks where
  start := by
    refine Condition.holder_step h.start (.infer m) (fun q hq => ?_) ?_
    · cases q with
      | scheduler => simp
      | infer m' =>
        simp only [HoldsStart]
        rw [stepInfer_infer_of_ne w m fun heq => hq (heq ▸ rfl)]
    · have hholds := h.start (.infer m)
      cases hpoint : w.infer m <;> simp only [World.stepInfer, hpoint]
      all_goals try split
      all_goals simp_all [Condition.Free]
  stop := by
    refine Condition.holder_step h.stop (.infer m) (fun q hq => ?_) ?_
    · cases q with
      | scheduler => simp
      | infer m' =>
        simp only [HoldsEnd]
        rw [stepInfer_infer_of_ne w m fun heq => hq (heq ▸ rfl)]
    · have hholds := h.stop (.infer m)
      cases hpoint : w.infer m <;> simp only [World.stepInfer, hpoint]
      all_goals try split
      all_goals simp_all [Condition.Free]
  start_waiting := by
    intro p hp
    have hold : p ∈ w.startLock.waiting → p ≠ .infer m → ∃ m', p = .infer m' ∧
      (w.stepInfer m).infer m' = .awaitStart := by
      intro hmem hne
      obtain ⟨m', rfl, hm'⟩ := h.start_waiting p hmem
      refine ⟨m', rfl, ?_⟩
      rwa [stepInfer_infer_of_ne w m fun heq => hne (heq ▸ rfl)]
    by_cases hne : p = .infer m
    · subst hne
      have hwaiting := h.start_waiting (.infer m)
      refine ⟨m, rfl, ?_⟩
      revert hp
      cases hpoint : w.infer m <;> simp only [World.stepInfer, hpoint]
      all_goals try split
      all_goals simp_all [Condition.Free]
    · refine hold ?_ hne
      revert hp
      cases hpoint : w.infer m <;> simp only [World.stepInfer, hpoint]
      all_goals try split
      all_goals simp [hne]
  end_waiting := by
    have hwaiting := h.end_waiting
    rw [stepInfer_scheduler]
    cases hpoint : w.infer m <;> simp only [World.stepInfer, hpoint]
    all_goals try split
    case notifyEnd =>
      refine .inl ?_
      rcases hwaiting with hnone | ⟨hone, -⟩
      · simp [hnone]
      · simp [hone]
    all_goals simpa using hwaiting

/-- At most one thread is busy, in one of the three ways, and it is the one that was dispatched. -/
structure Token (w : World n) : Prop where
  issued : ∀ m : Model n, w.Busy m ↔ w.scheduler.issued = some m
  start_running : ∀ m : Model n, w.startFlag m.threadId = true → ¬ (w.infer m).Running
  start_end : ∀ m : Model n, w.startFlag m.threadId = true → w.endFlag m.threadId = false
  running_end : ∀ m : Model n, (w.infer m).Running → w.endFlag m.threadId = false
  clearEnd : ∀ m : Model n, w.scheduler = .clearEnd m → w.endFlag m.threadId = true
  clearStart : ∀ m : Model n, w.infer m = .clearStart → w.startFlag m.threadId = true

theorem update_threadId (flag : Nat → Bool) (m m' : Model n) (b : Bool) :
    Function.update flag m.threadId b m'.threadId = if m' = m then b else flag m'.threadId := by
  rw [Function.update_apply]
  exact if_congr ⟨Model.threadId_inj, congrArg _⟩ rfl rfl

private theorem Token.frame {w w' : World n} (h : w.Token) (hstart : w'.startFlag = w.startFlag)
    (hend : w'.endFlag = w.endFlag) (hissued : w'.scheduler.issued = w.scheduler.issued)
    (hrunning : ∀ m, (w'.infer m).Running ↔ (w.infer m).Running)
    (hclearEnd : ∀ m, w'.scheduler = .clearEnd m → w.endFlag m.threadId = true)
    (hclearStart : ∀ m, w'.infer m = .clearStart → w.startFlag m.threadId = true) : w'.Token where
  issued := by
    intro m
    rw [hissued, ← h.issued m, Busy, Busy, hstart, hend, hrunning]
  start_running := by
    intro m
    rw [hstart, hrunning]
    exact h.start_running m
  start_end := by
    rw [hstart, hend]
    exact h.start_end
  running_end := by
    intro m
    rw [hend, hrunning]
    exact h.running_end m
  clearEnd := by
    rw [hend]
    exact hclearEnd
  clearStart := by
    rw [hstart]
    exact hclearStart

/-- No thread is busy before a start flag is set. -/
theorem Token.not_busy {w : World n} (h : w.Token) (hnone : w.scheduler.issued = none) (m : Model n) :
    w.startFlag m.threadId = false ∧ ¬ (w.infer m).Running ∧ w.endFlag m.threadId = false := by
  have hbusy : ¬ w.Busy m := by
    rw [h.issued m, hnone]
    exact nofun
  simpa [Busy] using hbusy

/-- A step of the scheduler keeps the flags with the round that is open. -/
theorem Token.stepScheduler {w : World n} (h : w.Token) (decision : Decision n) : (w.stepScheduler decision).Token := by
  cases hpoint : w.scheduler <;> simp only [World.stepScheduler, hpoint]
  all_goals try split
  case setStart m =>
    have hnone := h.not_busy (by rw [hpoint]; rfl)
    constructor
    all_goals simp only [Model.selectedThreadId_eq, update_threadId, Busy]
    · intro m'
      by_cases heq : m' = m
      · simp [heq, SchedulerPoint.issued]
      · simp only [if_neg heq, hnone m', SchedulerPoint.issued, Option.some.injEq, Ne.symm heq, or_self,
          Bool.false_eq_true]
    · exact fun m' _ => (hnone m').2.1
    · exact fun m' _ => (hnone m').2.2
    · exact fun m' _ => (hnone m').2.2
    · exact fun m' heq => nomatch heq
    · intro m' heq
      exact absurd (h.clearStart m' heq) (by simp [hnone m'])
  case clearEnd m =>
    have hset := h.clearEnd m hpoint
    have hrest : ∀ m' : Model n, w.startFlag m'.threadId = false ∧ ¬ (w.infer m').Running ∧
        (m' ≠ m → w.endFlag m'.threadId = false) := by
      intro m'
      by_cases heq : m' = m
      · subst heq
        refine ⟨?_, fun hr => ?_, fun hne => absurd rfl hne⟩
        · by_contra hs
          rw [h.start_end m' (by simpa using hs)] at hset
          cases hset
        · rw [h.running_end m' hr] at hset
          cases hset
      · have hbusy : ¬ w.Busy m' := by
          rw [h.issued m', hpoint]
          exact fun he => heq (Option.some.inj he).symm
        simp only [Busy, not_or, Bool.not_eq_true] at hbusy
        exact ⟨hbusy.1, hbusy.2.1, fun _ => hbusy.2.2⟩
    constructor
    all_goals simp only [Model.selectedThreadId_eq, update_threadId, Busy]
    · intro m'
      by_cases heq : m' = m
      · simp [heq, hrest m, SchedulerPoint.issued]
      · simp [heq, hrest m', SchedulerPoint.issued]
    · exact fun m' _ => (hrest m').2.1
    · intro m' hs
      rw [(hrest m').1] at hs
      cases hs
    · exact fun m' hr => absurd hr (hrest m').2.1
    · exact fun m' heq => nomatch heq
    · exact h.clearStart
  case checkEnd.isTrue m hflag =>
    refine h.frame rfl rfl (by rw [hpoint]; rfl) (fun _ => Iff.rfl) (fun m' heq => ?_) h.clearStart
    cases heq
    rwa [Model.selectedThreadId_eq] at hflag
  all_goals
    refine h.frame rfl rfl (by rw [hpoint]; try rfl) (fun _ => Iff.rfl) (fun m' heq => ?_) h.clearStart
    first
      | exact h.clearEnd m' heq
      | cases heq

private theorem Token.goto {w w' : World n} (h : w.Token) {m : Model n} {p : InferPoint}
    (hstart : w'.startFlag = w.startFlag) (hend : w'.endFlag = w.endFlag) (hscheduler : w'.scheduler = w.scheduler)
    (hinfer : w'.infer = w.infer) (hrunning : p.Running ↔ (w.infer m).Running)
    (hclear : p = .clearStart → w.startFlag m.threadId = true) : (w'.goto m p).Token := by
  refine h.frame hstart hend (by rw [goto_scheduler, hscheduler]) (fun m' => ?_)
    (fun m' heq => h.clearEnd m' (hscheduler ▸ heq)) fun m' heq => ?_
  · rw [goto_infer, hinfer]
    split_ifs with hm
    · rw [hm, hrunning]
    · rfl
  · rw [goto_infer, hinfer] at heq
    split_ifs at heq with hm
    · exact hm ▸ hclear heq
    · exact h.clearStart m' heq

/-- So does a step of a process. -/
theorem Token.stepInfer {w : World n} (h : w.Token) (m : Model n) : (w.stepInfer m).Token := by
  cases hpoint : w.infer m <;> simp only [World.stepInfer, hpoint]
  all_goals try split
  case clearStart =>
    have hset := h.clearStart m hpoint
    constructor
    all_goals simp only [goto_startFlag, goto_endFlag, goto_infer, goto_scheduler, update_threadId, Busy]
    · intro m'
      rw [← h.issued m', Busy]
      by_cases heq : m' = m
      · simp [heq, hset, InferPoint.Running]
      · simp only [if_neg heq]
    · intro m' hs
      split_ifs at hs ⊢ with heq
      exact h.start_running m' hs
    · intro m' hs
      split_ifs at hs
      exact h.start_end m' hs
    · intro m' hr
      split_ifs at hr with heq
      · exact heq ▸ h.start_end m hset
      · exact h.running_end m' hr
    · exact h.clearEnd
    · intro m' hs
      split_ifs at hs ⊢ with heq
      exact h.clearStart m' hs
  case setEnd =>
    have hrunning : (w.infer m).Running := by
      rw [hpoint]
      trivial
    have hstart : w.startFlag m.threadId = false := by
      by_contra hs
      exact h.start_running m (by simpa using hs) hrunning
    constructor
    all_goals simp only [goto_startFlag, goto_endFlag, goto_infer, goto_scheduler, update_threadId, Busy]
    · intro m'
      rw [← h.issued m', Busy]
      by_cases heq : m' = m
      · simp [heq, hrunning]
      · simp only [if_neg heq]
    · intro m' hs
      split_ifs with heq
      · exact id
      · exact h.start_running m' hs
    · intro m' hs
      split_ifs with heq
      · rw [heq, hstart] at hs
        cases hs
      · exact h.start_end m' hs
    · intro m' hr
      split_ifs at hr ⊢ with heq
      · cases hr
      · exact h.running_end m' hr
    · intro m' heq
      split_ifs
      · rfl
      · exact h.clearEnd m' heq
    · intro m' heq
      split_ifs at heq
      exact h.clearStart m' heq
  case checkStart.isTrue hflag =>
    refine h.goto rfl rfl rfl rfl ?_ fun _ => hflag
    rw [hpoint]
    exact Iff.rfl
  all_goals
    first
      | exact h
      | (refine h.goto rfl rfl rfl rfl ?_ nofun
         rw [hpoint]
         exact Iff.rfl)

/-- Nobody sleeps through a flag: a flag that a sleeper waits for is about to be notified. -/
structure Awake (w : World n) : Prop where
  sleepStart : ∀ m : Model n, w.infer m = .sleepStart → w.startFlag m.threadId = false
  start : ∀ m : Model n, .infer m ∈ w.startLock.waiting → w.startFlag m.threadId = true → w.scheduler = .notifyStart m
  sleepEnd : ∀ m : Model n, w.scheduler = .sleepEnd m → w.endFlag m.threadId = false
  stop : .scheduler ∈ w.endLock.waiting → ∀ m : Model n, w.endFlag m.threadId = true → w.infer m = .notifyEnd

private theorem Awake.not_waiting {w : World n} (h : w.Awake) {m : Model n} {P : Prop}
    (hnotify : ∀ m, w.scheduler ≠ .notifyStart m) (hmem : .infer m ∈ w.startLock.waiting)
    (hflag : w.startFlag m.threadId = true) : P :=
  absurd (h.start m hmem hflag) (hnotify m)

/-- A step of the scheduler loses no process that its flag calls. -/
theorem Awake.stepScheduler {w : World n} (h : w.Awake) (hl : w.Locks) (ht : w.Token) (decision : Decision n) :
    (w.stepScheduler decision).Awake := by
  have hstop := h.stop
  cases hpoint : w.scheduler <;> simp only [World.stepScheduler, hpoint]
  all_goals try split
  case setStart m =>
    refine ⟨fun m' heq => ?_, fun m' hmem hflag => ?_, nofun, hstop⟩
    · have hholder := (hl.start .scheduler).mpr (by simp [hpoint])
      rw [(hl.start (.infer m')).mpr (by simp [show w.infer m' = _ from heq])] at hholder
      cases hholder
    · simp only [Model.selectedThreadId_eq, update_threadId] at hflag
      split_ifs at hflag with heq
      · rw [heq]
      · exact h.not_waiting (by simp [hpoint]) hmem hflag
  case notifyStart => exact ⟨h.sleepStart, nofun, nofun, hstop⟩
  case checkEnd.isFalse m hflag =>
    refine ⟨h.sleepStart, fun m' hmem hs => ?_, fun m' heq => ?_, hstop⟩
    · exact h.not_waiting (by simp [hpoint]) hmem hs
    · cases heq
      rwa [Model.selectedThreadId_eq, Bool.not_eq_true] at hflag
  case sleepEnd m =>
    refine ⟨h.sleepStart, fun m' hmem hs => ?_, nofun, fun _ m' hflag => ?_⟩
    · exact h.not_waiting (by simp [hpoint]) hmem hs
    · have hissued := (ht.issued m').mp (.inr (.inr hflag))
      rw [hpoint] at hissued
      cases hissued
      rw [h.sleepEnd m hpoint] at hflag
      cases hflag
  case clearEnd m =>
    refine ⟨h.sleepStart, fun m' hmem hs => ?_, nofun, fun hmem m' hflag => ?_⟩
    · exact h.not_waiting (by simp [hpoint]) hmem hs
    · simp only [Model.selectedThreadId_eq, update_threadId] at hflag
      split_ifs at hflag
      exact hstop hmem m' hflag
  all_goals
    refine ⟨h.sleepStart, fun m' hmem hs => ?_, ?_, hstop⟩
    · exact h.not_waiting (by simp [hpoint]) hmem hs
    · first
        | exact h.sleepEnd
        | exact nofun

private theorem Awake.goto {w w' : World n} (h : w.Awake) {m : Model n} {p : InferPoint}
    (hstart : w'.startFlag = w.startFlag) (hend : w'.endFlag = w.endFlag) (hscheduler : w'.scheduler = w.scheduler)
    (hinfer : w'.infer = w.infer) (hstartLock : w'.startLock.waiting = w.startLock.waiting)
    (hendLock : w'.endLock.waiting = w.endLock.waiting) (hnotify : w.infer m ≠ .notifyEnd)
    (hsleep : p = .sleepStart → w.startFlag m.threadId = false) : (w'.goto m p).Awake where
  sleepStart := by
    intro m' heq
    rw [goto_infer, hinfer] at heq
    rw [goto_startFlag, hstart]
    split_ifs at heq with hm
    · exact hm ▸ hsleep heq
    · exact h.sleepStart m' heq
  start := by
    intro m' hmem hflag
    rw [goto_startLock, hstartLock] at hmem
    rw [goto_startFlag, hstart] at hflag
    rw [goto_scheduler, hscheduler]
    exact h.start m' hmem hflag
  sleepEnd := by
    intro m' heq
    rw [goto_endFlag, hend]
    exact h.sleepEnd m' (hscheduler ▸ heq)
  stop := by
    intro hmem m' hflag
    rw [goto_endLock, hendLock] at hmem
    rw [goto_endFlag, hend] at hflag
    have hm' := h.stop hmem m' hflag
    have hne : m' ≠ m := by
      rintro rfl
      exact hnotify hm'
    rw [goto_infer, hinfer, if_neg hne, hm']

private theorem Awake.sleepStart_goto {w w' : World n} (h : w.Awake) {m m' : Model n} {p : InferPoint}
    (hinfer : w'.infer = w.infer) (hp : p ≠ .sleepStart) (heq : (w'.goto m p).infer m' = .sleepStart) :
    m' ≠ m ∧ w.startFlag m'.threadId = false := by
  rw [goto_infer, hinfer] at heq
  split_ifs at heq with hm
  · exact absurd heq hp
  · exact ⟨hm, h.sleepStart m' heq⟩

/-- Nor does a step of a process. -/
theorem Awake.stepInfer {w : World n} (h : w.Awake) (hl : w.Locks) (m : Model n) : (w.stepInfer m).Awake := by
  have hstop : ∀ {m' : Model n} {p : InferPoint}, w.infer m ≠ .notifyEnd → .scheduler ∈ w.endLock.waiting →
      w.endFlag m'.threadId = true → (if m' = m then p else w.infer m') = .notifyEnd := by
    intro m' p hne hmem hflag
    have hm' := h.stop hmem m' hflag
    have hother : m' ≠ m := by
      rintro rfl
      exact hne hm'
    rw [if_neg hother, hm']
  cases hpoint : w.infer m <;> simp only [World.stepInfer, hpoint]
  all_goals try split
  case sleepStart =>
    refine ⟨fun m' heq => (h.sleepStart_goto rfl InferPoint.noConfusion heq).2, fun m' hmem hflag => ?_, h.sleepEnd,
      fun hmem m' hflag => ?_⟩
    · rcases List.mem_append.mp hmem with hold | hnew
      · exact h.start m' hold hflag
      · cases List.mem_singleton.mp hnew
        have hfalse := h.sleepStart m hpoint
        rw [show w.startFlag m.threadId = true from hflag] at hfalse
        cases hfalse
    · rw [goto_infer]
      exact hstop (by rw [hpoint]; exact nofun) hmem hflag
  case clearStart =>
    refine ⟨fun m' heq => ?_, fun m' hmem hflag => ?_, h.sleepEnd, fun hmem m' hflag => ?_⟩
    · obtain ⟨hm, hfalse⟩ := h.sleepStart_goto rfl InferPoint.noConfusion heq
      dsimp only [goto_startFlag]
      rwa [update_threadId, if_neg hm]
    · simp only [goto_startFlag, update_threadId] at hflag
      split_ifs at hflag
      exact h.start m' hmem hflag
    · rw [goto_infer]
      exact hstop (by rw [hpoint]; exact nofun) hmem hflag
  case setEnd =>
    refine ⟨fun m' heq => (h.sleepStart_goto rfl InferPoint.noConfusion heq).2, h.start, fun m' heq => ?_,
      fun hmem m' hflag => ?_⟩
    · have hholder := (hl.stop (.infer m)).mpr (by simp [hpoint])
      rw [(hl.stop .scheduler).mpr (by simp [show w.scheduler = _ from heq])] at hholder
      cases hholder
    · simp only [goto_infer, goto_endFlag, update_threadId] at hflag ⊢
      split_ifs at hflag ⊢ with heq
      · rfl
      · exact h.stop hmem m' hflag
  case notifyEnd =>
    refine ⟨fun m' heq => (h.sleepStart_goto rfl InferPoint.noConfusion heq).2, h.start, h.sleepEnd, fun hmem => ?_⟩
    · have hnone : w.endLock.waiting.tail = [] := by
        rcases hl.end_waiting with hnone | ⟨hone, -⟩
        · rw [hnone]
          rfl
        · rw [hone]
          rfl
      simp [hnone] at hmem
  case checkStart.isFalse hflag =>
    refine h.goto rfl rfl rfl rfl rfl rfl ?_ fun _ => by simpa using hflag
    rw [hpoint]
    exact nofun
  all_goals
    first
      | exact h
      | (refine h.goto rfl rfl rfl rfl rfl rfl ?_ nofun
         rw [hpoint]
         exact nofun)

/-- A notification of the end comes with the flag, and a scheduler that is woken finds it set. -/
structure Woken (w : World n) : Prop where
  finished : ∀ m : Model n, w.infer m = .notifyEnd ∨ w.infer m = .releaseEnd → w.endFlag m.threadId = true
  awaitEnd : ∀ m : Model n, w.scheduler = .awaitEnd m → .scheduler ∈ w.endLock.waiting ∨ w.endFlag m.threadId = true

theorem Woken.stepScheduler {w : World n} (h : w.Woken) (hl : w.Locks) (decision : Decision n) :
    (w.stepScheduler decision).Woken where
  finished := by
    intro m hm
    rw [stepScheduler_infer] at hm
    have hset := h.finished m hm
    cases hpoint : w.scheduler <;> simp only [World.stepScheduler, hpoint]
    all_goals try split
    case clearEnd m' =>
      have hholder := (hl.stop (.infer m)).mpr (by rcases hm with hm | hm <;> simp [hm])
      rw [(hl.stop .scheduler).mpr (by simp [hpoint])] at hholder
      cases hholder
    all_goals exact hset
  awaitEnd := by
    intro m
    have hawait := h.awaitEnd m
    cases hpoint : w.scheduler <;> simp only [World.stepScheduler, hpoint]
    all_goals try split
    case sleepEnd => exact fun _ => .inl (List.mem_append_right _ (List.mem_singleton_self _))
    case awaitEnd.isFalse => exact hawait
    all_goals simp [hpoint]

theorem Woken.stepInfer {w : World n} (h : w.Woken) (ht : w.Token) (m : Model n) : (w.stepInfer m).Woken where
  finished := by
    intro m' hm'
    by_cases heq : m' = m
    · subst heq
      revert hm'
      have hset := h.finished m'
      cases hpoint : w.infer m' <;> simp only [World.stepInfer, hpoint]
      all_goals try split
      all_goals simp_all
    · rw [stepInfer_infer_of_ne w m heq] at hm'
      have hset := h.finished m' hm'
      cases hpoint : w.infer m <;> simp only [World.stepInfer, hpoint]
      all_goals try split
      case setEnd => simp only [goto_endFlag, update_threadId, if_neg heq, hset]
      all_goals exact hset
  awaitEnd := by
    intro m' hm'
    rw [stepInfer_scheduler] at hm'
    have hawait := h.awaitEnd m' hm'
    cases hpoint : w.infer m <;> simp only [World.stepInfer, hpoint]
    all_goals try split
    case setEnd =>
      apply hawait.imp id
      intro hset
      simp only [goto_endFlag, update_threadId, hset, ite_self]
    case notifyEnd =>
      have hset := h.finished m (.inl hpoint)
      have hissued := (ht.issued m).mp (.inr (.inr hset))
      rw [hm'] at hissued
      cases hissued
      exact .inr hset
    all_goals exact hawait

end World

end Soar.Scheduler
