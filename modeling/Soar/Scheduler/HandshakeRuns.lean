import Mathlib.Data.Finset.Max
import Soar.Scheduler.HandshakeInvariant

/-! The rounds of the scheduler and the model processes, over whole runs. -/
namespace Soar.Scheduler
open Soar.Library

variable {n : Nat}

/-- What a decision is to `LocalScheduler.iteration`. -/
def Decision.outcome : Decision n → Outcome
  | .idle => .idle
  | .drop task => .dropped task
  | .run m => .dispatched m.task m.mv

private theorem Argmin.index_lt (argmin : Argmin) {times : List Time} (h : 0 < times.length) :
    argmin.index times < times.length := by
  obtain ⟨least, hleast⟩ := argmin.spec times (List.length_pos_iff.mp h)
  exact (List.getElem?_eq_some_iff.mp hleast.holds).1

/-- Every iteration of `local_scheduling` makes one of the decisions that a turn of the scheduler can
make: it names a task of the scheduler and one of the two variants. -/
theorem exists_decision_of_iteration (argmin : Argmin) (s : LocalScheduler) (queues : Queues)
    (curTime currentTime : ℚ) :
    ∃ decision : Decision s.taskNum, decision.outcome = (s.iteration argmin queues curTime currentTime).2 := by
  by_cases hnone : s.noneTimes queues = s.taskNum
  · refine ⟨.idle, ?_⟩
    simp [LocalScheduler.iteration, LocalScheduler.selectModelBackoff, hnone, Decision.outcome]
  · have htask : argmin.index ((s.readQueues queues).remainTimes curTime) < s.taskNum := by
      have hpos : 0 < s.taskNum := by
        by_contra hzero
        apply hnone
        simp [LocalScheduler.noneTimes, Nat.eq_zero_of_not_pos hzero]
      have hlength : ((s.readQueues queues).remainTimes curTime).length = s.taskNum := by
        simp [LocalScheduler.remainTimes, LocalScheduler.readQueues]
      rw [← hlength] at hpos ⊢
      exact argmin.index_lt hpos
    have hselected : (s.selectModelBackoff argmin queues curTime).1.selectedTask.toNat < s.taskNum := by
      unfold LocalScheduler.selectModelBackoff
      rw [if_neg hnone]
      dsimp only
      split_ifs
      · exact htask
      · unfold LocalScheduler.selectNext
        dsimp only
        split_ifs <;> exact htask
    unfold LocalScheduler.iteration
    dsimp only
    split_ifs
    · exact ⟨.idle, rfl⟩
    · exact ⟨.drop ⟨_, hselected⟩, rfl⟩
    · have hvariant : ∀ time, (s.selectModelBackoff argmin queues curTime).1.selectVariantBackoff time < 2 := by
        intro time
        unfold LocalScheduler.selectVariantBackoff
        dsimp only
        split_ifs <;> decide
      exact ⟨.run ⟨⟨_, hselected⟩, ⟨_, hvariant currentTime⟩⟩, rfl⟩

/-- What a selection leads to in the end: a head dropped, or a variant run. -/
inductive Round (n : Nat)
  | dropped (task : Fin n)
  | ran (m : Model n)

/-- A run consists of one consumption of the start flag by the process of the variant, one `get` on
the queue of its task, and the end flag. -/
def Round.events : Round n → List (Event n)
  | .dropped task => [.drop task]
  | .ran m => [.dispatch m, .consume m, .get m m.task, .finish m, .leave m]

/-- What a model process has done since its start flag was set. -/
def InferPoint.events (m : Model n) : InferPoint → List (Event n)
  | .releaseStart | .readData => [.consume m]
  | .detect | .acquireEnd | .setEnd => [.consume m, .get m m.task]
  | _ => []

namespace World

def progress (w : World n) (m : Model n) : List (Event n) :=
  if w.endFlag m.threadId then [.consume m, .get m m.task, .finish m] else (w.infer m).events m

/-- The events of the round that is not over. -/
def opened (w : World n) : List (Event n) :=
  match w.scheduler with
  | .select | .releaseEnd _ => []
  | .acquireStart m | .setStart m => [.dispatch m]
  | .notifyStart m | .releaseStart m | .acquireEnd m | .checkEnd m | .sleepEnd m | .awaitEnd m | .clearEnd m =>
    .dispatch m :: w.progress m

/-- The history is a sequence of rounds, of which the last may still be going on. -/
def Recorded (w : World n) : Prop := ∃ rounds : List (Round n), w.history = rounds.flatMap Round.events ++ w.opened

private theorem events_of_not_running (m : Model n) {p : InferPoint} (h : ¬ p.Running) : p.events m = [] := by
  cases p
  all_goals first
    | rfl
    | exact absurd trivial h

theorem Recorded.stepScheduler {w : World n} (h : w.Recorded) (ht : w.Token) (decision : Decision n) :
    (w.stepScheduler decision).Recorded := by
  obtain ⟨rounds, hrounds⟩ := h
  unfold opened at hrounds
  cases hpoint : w.scheduler <;> simp only [World.stepScheduler, hpoint] at hrounds ⊢
  all_goals try split
  case h_2 task =>
    exact ⟨rounds ++ [.dropped task], by simp [hrounds, opened, Round.events]⟩
  case h_3 m => exact ⟨rounds, by simp [hrounds, opened]⟩
  case setStart m =>
    have hnone := ht.not_busy (by rw [hpoint]; rfl) m
    refine ⟨rounds, ?_⟩
    simp only [hrounds, opened, progress, hnone.2.2, events_of_not_running m hnone.2.1]
    rfl
  case clearEnd m =>
    refine ⟨rounds ++ [.ran m], ?_⟩
    simp only [hrounds, opened, progress, ht.clearEnd m hpoint]
    simp [Round.events]
  all_goals exact ⟨rounds, by simp [hrounds, opened, progress, hpoint]⟩

private theorem opened_of_issued {w : World n} {m : Model n} (h : w.scheduler.issued = some m) :
    w.opened = .dispatch m :: w.progress m := by
  unfold opened
  cases hpoint : w.scheduler <;> rw [hpoint] at h <;> cases h <;> rfl

private theorem Recorded.goto {w w' : World n} (h : w.Recorded) {m : Model n} {p : InferPoint}
    (hend : w'.endFlag = w.endFlag) (hscheduler : w'.scheduler = w.scheduler) (hinfer : w'.infer = w.infer)
    (hhistory : w'.history = w.history) (hp : p.events m = (w.infer m).events m) : (w'.goto m p).Recorded := by
  obtain ⟨rounds, hrounds⟩ := h
  refine ⟨rounds, ?_⟩
  have hprogress : ∀ m', (w'.goto m p).progress m' = w.progress m' := by
    intro m'
    unfold progress
    rw [goto_endFlag, hend, goto_infer, hinfer]
    split_ifs with _ hm
    · rfl
    · rw [hm, hp]
    · rfl
  rw [goto_history, hhistory, hrounds]
  unfold opened
  rw [goto_scheduler, hscheduler]
  cases w.scheduler <;> simp only [hprogress]

theorem Recorded.stepInfer {w : World n} (h : w.Recorded) (ht : w.Token) (m : Model n) : (w.stepInfer m).Recorded := by
  have hrunning : (w.infer m).Running → w.scheduler.issued = some m := fun hr => (ht.issued m).mp (.inr (.inl hr))
  cases hpoint : w.infer m <;> simp only [World.stepInfer, hpoint]
  all_goals try split
  case clearStart =>
    have hset := ht.clearStart m hpoint
    have hissued := (ht.issued m).mp (.inl hset)
    obtain ⟨rounds, hrounds⟩ := h
    rw [opened_of_issued hissued] at hrounds
    refine ⟨rounds, ?_⟩
    rw [opened_of_issued (by exact hissued)]
    simp [hrounds, progress, ht.start_end m hset, hpoint, InferPoint.events]
  case readData =>
    have hr : (w.infer m).Running := by rw [hpoint]; trivial
    obtain ⟨rounds, hrounds⟩ := h
    rw [opened_of_issued (hrunning hr)] at hrounds
    refine ⟨rounds, ?_⟩
    rw [opened_of_issued (by exact hrunning hr)]
    simp [hrounds, progress, ht.running_end m hr, hpoint, InferPoint.events]
  case setEnd =>
    have hr : (w.infer m).Running := by rw [hpoint]; trivial
    obtain ⟨rounds, hrounds⟩ := h
    rw [opened_of_issued (hrunning hr)] at hrounds
    refine ⟨rounds, ?_⟩
    rw [opened_of_issued (by exact hrunning hr)]
    simp [hrounds, progress, ht.running_end m hr, hpoint, InferPoint.events]
  all_goals
    first
      | exact h
      | (refine h.goto rfl rfl rfl rfl ?_
         rw [hpoint]
         rfl)

/-- Everything that holds after every step. -/
structure Inv (w : World n) : Prop where
  locks : w.Locks
  token : w.Token
  awake : w.Awake
  woken : w.Woken
  recorded : w.Recorded

theorem Inv.initial : (({} : World n)).Inv where
  locks := by
    constructor
    · intro p
      cases p <;> simp
    · intro p
      cases p <;> simp
    · intro p hp
      cases hp
    · exact .inl rfl
  token := by
    constructor
    · intro m
      simp [Busy, InferPoint.Running, SchedulerPoint.issued]
    all_goals
      intro m h
      cases h
  awake := by
    constructor
    · intro m h
      cases h
    · intro m h
      cases h
    · intro m h
      cases h
    · intro h
      cases h
  woken := by
    constructor
    · intro m hm
      rcases hm with hm | hm <;> cases hm
    · intro m h
      cases h
  recorded := ⟨[], rfl⟩

theorem Inv.step {w : World n} (h : w.Inv) (turn : Turn n) : (w.step turn).Inv := by
  cases turn with
  | scheduler decision =>
    exact ⟨h.locks.stepScheduler decision, h.token.stepScheduler decision,
      h.awake.stepScheduler h.locks h.token decision, h.woken.stepScheduler h.locks decision,
      h.recorded.stepScheduler h.token decision⟩
  | infer m =>
    exact ⟨h.locks.stepInfer m, h.token.stepInfer m, h.awake.stepInfer h.locks m, h.woken.stepInfer h.token m,
      h.recorded.stepInfer h.token m⟩

/-- The invariant holds after every schedule. -/
theorem Inv.run {w : World n} (h : w.Inv) (schedule : List (Turn n)) : (w.run schedule).Inv := by
  induction schedule generalizing w with
  | nil => exact h
  | cons turn schedule ih => exact ih (h.step turn)

/-- While the scheduler selects, nobody is busy and all flags are clear. -/
theorem Inv.flags_of_select {w : World n} (h : w.Inv) (hselect : w.scheduler = .select) {t : Nat} (ht : t < 2 * n) :
    w.startFlag t = false ∧ w.endFlag t = false := by
  obtain ⟨m, rfl⟩ := Model.threadId_surj ht
  have hnone := h.token.not_busy (by rw [hselect]; rfl) m
  exact ⟨hnone.1, hnone.2.2⟩

/-- No two threads are busy at a time. -/
theorem Inv.busy_unique {w : World n} (h : w.Inv) {m m' : Model n} (hm : w.Busy m) (hm' : w.Busy m') : m = m' :=
  Option.some.inj (((h.token.issued m).mp hm).symm.trans ((h.token.issued m').mp hm'))

/-- The open round is a part of the round of one variant. -/
theorem opened_prefix (w : World n) :
    w.opened = [] ∨ ∃ m : Model n, w.opened <+: [.dispatch m, .consume m, .get m m.task, .finish m] := by
  have hprogress : ∀ m, w.progress m <+: [.consume m, .get m m.task, .finish m] := by
    intro m
    unfold progress
    split_ifs
    · exact List.prefix_rfl
    · cases w.infer m <;> simp [InferPoint.events]
  unfold opened
  split
  case h_1 | h_2 => exact .inl rfl
  case h_3 m _ | h_4 m _ => exact .inr ⟨m, by simp⟩
  all_goals
    rename_i m _
    exact .inr ⟨m, List.cons_prefix_cons.mpr ⟨rfl, hprogress m⟩⟩

end World

end Soar.Scheduler
