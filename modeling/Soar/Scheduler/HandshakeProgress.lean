import Mathlib.Algebra.Order.BigOperators.Group.Finset
import Mathlib.Data.Prod.Lex
import Mathlib.Data.Fintype.Prod
import Soar.Library.FairSchedule
import Soar.Scheduler.HandshakeRuns

/-! No start is lost: the scheduler always comes back to its selection. -/
namespace Soar.Scheduler
open Soar.Library

variable {n : Nat}

instance : Fintype (Model n) :=
  .ofEquiv (Fin n × Fin 2) ⟨fun p => ⟨p.1, p.2⟩, fun m => (m.task, m.mv), fun _ => rfl, fun _ => rfl⟩

def Turn.party : Turn n → Party n
  | .scheduler _ => .scheduler
  | .infer m => .infer m

namespace World

/-- How far the scheduler is from its next selection. -/
def remaining (w : World n) : Nat :=
  match w.scheduler with
  | .select => 0
  | .releaseEnd _ => 1
  | .clearEnd _ => 2
  | .checkEnd m => if w.endFlag m.threadId then 3 else 7
  | .awaitEnd _ => if .scheduler ∈ w.endLock.waiting then 5 else 4
  | .sleepEnd _ => 6
  | .acquireEnd _ => 8
  | .releaseStart _ => 9
  | .notifyStart _ => 10
  | .setStart _ => 11
  | .acquireStart _ => 12

/-- How many steps the process `m` can take before it sleeps. -/
def inferRemaining (w : World n) (m : Model n) : Nat :=
  match w.infer m with
  | .acquireStart => if w.startFlag m.threadId then 13 else 3
  | .awaitStart => if .infer m ∈ w.startLock.waiting then 0 else if w.startFlag m.threadId then 13 else 3
  | .checkStart => if w.startFlag m.threadId then 12 else 2
  | .sleepStart => 1
  | .clearStart => 11
  | .releaseStart => 10
  | .readData => 9
  | .detect => 8
  | .acquireEnd => 7
  | .setEnd => 6
  | .notifyEnd => 5
  | .releaseEnd => 4

def rank (w : World n) : ℕ ×ₗ ℕ := toLex (w.remaining, ∑ m, w.inferRemaining m)

/-- A step of the scheduler in a round brings it nearer to its next selection, or changes nothing. -/
theorem rank_stepScheduler {w : World n} (h : w.Inv) (hselect : w.scheduler ≠ .select) (decision : Decision n) :
    w.stepScheduler decision = w ∨ (w.stepScheduler decision).rank < w.rank := by
  have hlt : ∀ {w' : World n}, w'.remaining < w.remaining → w'.rank < w.rank := fun hlt => Prod.Lex.left _ _ hlt
  have hwoken := h.woken.awaitEnd
  cases hpoint : w.scheduler <;> simp only [World.stepScheduler, hpoint]
  all_goals try split
  case h_1 | h_2 | h_3 => exact absurd hpoint hselect
  case acquireStart.isFalse | acquireEnd.isFalse | awaitEnd.isFalse => exact .inl rfl
  case awaitEnd.isTrue m hfree =>
    have hset := (hwoken m hpoint).resolve_left hfree.2
    refine .inr (hlt ?_)
    simp [remaining, hpoint, hset, hfree.2]
  case checkEnd.isTrue m hflag =>
    rw [Model.selectedThreadId_eq] at hflag
    refine .inr (hlt ?_)
    simp [remaining, hpoint, hflag]
  case checkEnd.isFalse m hflag =>
    rw [Model.selectedThreadId_eq] at hflag
    refine .inr (hlt ?_)
    simp [remaining, hpoint, hflag]
  case acquireEnd.isTrue m _ =>
    refine .inr (hlt ?_)
    simp only [remaining, hpoint]
    split <;> decide
  all_goals
    refine .inr (hlt ?_)
    simp [remaining, hpoint]

private theorem remaining_le {w w' : World n} (hscheduler : w'.scheduler = w.scheduler)
    (hflag : ∀ m : Model n, w.endFlag m.threadId = true → w'.endFlag m.threadId = true)
    (hwaiting : .scheduler ∈ w'.endLock.waiting → .scheduler ∈ w.endLock.waiting) : w'.remaining ≤ w.remaining := by
  unfold remaining
  rw [hscheduler]
  cases w.scheduler with
  | checkEnd m =>
    by_cases hset : w.endFlag m.threadId = true
    · simp [hset, hflag m hset]
    · simp only [hset]
      split <;> decide
  | awaitEnd m =>
    by_cases hmem : .scheduler ∈ w'.endLock.waiting
    · simp [hmem, hwaiting hmem]
    · simp only [if_neg hmem]
      split <;> decide
  | _ => exact le_rfl

private theorem inferRemaining_eq {w w' : World n} {m : Model n} (hinfer : w'.infer m = w.infer m)
    (hflag : w'.startFlag m.threadId = w.startFlag m.threadId)
    (hwaiting : .infer m ∈ w'.startLock.waiting ↔ .infer m ∈ w.startLock.waiting) :
    w'.inferRemaining m = w.inferRemaining m := by
  unfold inferRemaining
  rw [hinfer, hflag]
  cases w.infer m with
  | awaitStart => exact if_congr hwaiting rfl rfl
  | _ => rfl

private theorem rank_goto {w w' : World n} {m : Model n} {p : InferPoint} (hscheduler : w'.scheduler = w.scheduler)
    (hinfer : w'.infer = w.infer)
    (hend : ∀ m' : Model n, w.endFlag m'.threadId = true → w'.endFlag m'.threadId = true)
    (hendWaiting : .scheduler ∈ w'.endLock.waiting → .scheduler ∈ w.endLock.waiting)
    (hstart : ∀ m' : Model n, m' ≠ m → w'.startFlag m'.threadId = w.startFlag m'.threadId)
    (hstartWaiting : ∀ m', m' ≠ m → (.infer m' ∈ w'.startLock.waiting ↔ .infer m' ∈ w.startLock.waiting))
    (hown : (w'.goto m p).inferRemaining m < w.inferRemaining m) : (w'.goto m p).rank < w.rank := by
  have hothers : ∀ m', m' ≠ m → (w'.goto m p).inferRemaining m' = w.inferRemaining m' := by
    intro m' hm'
    refine inferRemaining_eq ?_ (hstart m' hm') (hstartWaiting m' hm')
    rw [goto_infer, if_neg hm', hinfer]
  have hremaining : (w'.goto m p).remaining ≤ w.remaining := remaining_le hscheduler hend hendWaiting
  apply Prod.Lex.toLex_lt_toLex.mpr
  rcases hremaining.lt_or_eq with hlt | heq
  · exact .inl hlt
  · refine .inr ⟨heq, Finset.sum_lt_sum (fun m' _ => ?_) ⟨m, Finset.mem_univ m, hown⟩⟩
    by_cases hm : m' = m
    · exact hm ▸ hown.le
    · exact (hothers m' hm).le

/-- So does a step of a process. -/
theorem rank_stepInfer {w : World n} (h : w.Inv) (m : Model n) :
    w.stepInfer m = w ∨ (w.stepInfer m).rank < w.rank := by
  cases hpoint : w.infer m <;> simp only [World.stepInfer, hpoint]
  all_goals try split
  case acquireStart.isFalse | awaitStart.isFalse | acquireEnd.isFalse => exact .inl rfl
  case sleepStart =>
    refine .inr (rank_goto rfl rfl (fun _ => id) id (fun _ _ => rfl) (fun m' hm' => ?_) ?_)
    · simp [hm']
    · simp [inferRemaining, hpoint]
  case clearStart =>
    refine .inr (rank_goto rfl rfl (fun _ => id) id (fun m' hm' => ?_) (fun _ _ => Iff.rfl) ?_)
    · simp only [update_threadId, if_neg hm']
    · simp [inferRemaining, hpoint]
  case setEnd =>
    refine .inr (rank_goto rfl rfl (fun m' hset => ?_) id (fun _ _ => rfl) (fun _ _ => Iff.rfl) ?_)
    · simp only [update_threadId, hset, ite_self]
    · simp [inferRemaining, hpoint]
  case notifyEnd =>
    refine .inr (rank_goto rfl rfl (fun _ => id) List.mem_of_mem_tail (fun _ _ => rfl) (fun _ _ => Iff.rfl) ?_)
    simp [inferRemaining, hpoint]
  case releaseEnd =>
    refine .inr (rank_goto rfl rfl (fun _ => id) id (fun _ _ => rfl) (fun _ _ => Iff.rfl) ?_)
    have hset := h.woken.finished m (.inr hpoint)
    have hflag : w.startFlag m.threadId = false := by
      by_contra hs
      rw [h.token.start_end m (by simpa using hs)] at hset
      cases hset
    simp [inferRemaining, hpoint, hflag]
  case acquireStart.isTrue | awaitStart.isTrue =>
    refine .inr (rank_goto rfl rfl (fun _ => id) id (fun _ _ => rfl) (fun _ _ => Iff.rfl) ?_)
    cases hflag : w.startFlag m.threadId <;> simp_all [inferRemaining, Condition.Free]
  all_goals
    refine .inr (rank_goto rfl rfl (fun _ => id) id (fun _ _ => rfl) (fun _ _ => Iff.rfl) ?_)
    simp_all [inferRemaining]

/-- The party `p` is not blocked: its next step changes the state. -/
def CanMove (w : World n) (p : Party n) : Prop := ∀ turn : Turn n, turn.party = p → w.step turn ≠ w

private theorem goto_ne {w w' : World n} {m : Model n} {p : InferPoint} (h : p ≠ w.infer m) : w'.goto m p ≠ w := by
  intro heq
  apply h
  rw [← heq, goto_infer, if_pos rfl]

theorem canMove_scheduler {w : World n} (hselect : w.scheduler ≠ .select)
    (hstart : ∀ m, w.scheduler = .acquireStart m → w.startLock.Free .scheduler)
    (hend : ∀ m, w.scheduler = .acquireEnd m ∨ w.scheduler = .awaitEnd m → w.endLock.Free .scheduler) :
    w.CanMove .scheduler := by
  intro turn hturn heq
  cases turn with
  | infer m => cases hturn
  | scheduler decision =>
    have hpoint' := congrArg World.scheduler heq
    cases hpoint : w.scheduler <;> simp only [World.step, World.stepScheduler, hpoint] at hpoint'
    case select => exact hselect hpoint
    case acquireStart m => simp [hstart m hpoint] at hpoint'
    case acquireEnd m => simp [hend m (.inl hpoint)] at hpoint'
    case awaitEnd m => simp [hend m (.inr hpoint)] at hpoint'
    case checkEnd => split at hpoint' <;> cases hpoint'
    all_goals cases hpoint'

theorem canMove_infer {w : World n} {m : Model n}
    (hstart : w.infer m = .acquireStart ∨ w.infer m = .awaitStart → w.startLock.Free (.infer m))
    (hend : w.infer m = .acquireEnd → w.endLock.Free (.infer m)) : w.CanMove (.infer m) := by
  intro turn hturn
  cases turn with
  | scheduler decision => cases hturn
  | infer m' =>
    cases hturn
    cases hpoint : w.infer m <;> simp only [World.step, World.stepInfer, hpoint]
    all_goals try split
    case acquireStart.isFalse hnot => exact absurd (hstart (.inl hpoint)) hnot
    case awaitStart.isFalse hnot => exact absurd (hstart (.inr hpoint)) hnot
    case acquireEnd.isFalse hnot => exact absurd (hend hpoint) hnot
    all_goals
      apply goto_ne
      rw [hpoint]
      exact InferPoint.noConfusion

private theorem Inv.free_startLock {w : World n} (h : w.Inv) (hscheduler : ¬ w.scheduler.HoldsStart) {p : Party n}
    (hp : p ∉ w.startLock.waiting) : w.startLock.Free p ∨ ∃ m, w.CanMove (.infer m) := by
  cases hholder : w.startLock.holder with
  | none => exact .inl ⟨hholder, hp⟩
  | some q =>
    have hholds := (h.locks.start q).mp hholder
    cases q with
    | scheduler => exact absurd hholds hscheduler
    | infer m =>
      simp only [HoldsStart] at hholds
      refine .inr ⟨m, canMove_infer (fun hpoint => ?_) fun hpoint => ?_⟩
      · rcases hpoint with hpoint | hpoint <;> simp [hpoint] at hholds
      · simp [hpoint] at hholds

private theorem Inv.free_endLock {w : World n} (h : w.Inv) (hscheduler : ¬ w.scheduler.HoldsEnd) {p : Party n}
    (hp : p ∉ w.endLock.waiting) : w.endLock.Free p ∨ ∃ m, w.CanMove (.infer m) := by
  cases hholder : w.endLock.holder with
  | none => exact .inl ⟨hholder, hp⟩
  | some q =>
    have hholds := (h.locks.stop q).mp hholder
    cases q with
    | scheduler => exact absurd hholds hscheduler
    | infer m =>
      simp only [HoldsEnd] at hholds
      refine .inr ⟨m, canMove_infer (fun hpoint => ?_) fun hpoint => ?_⟩
      · rcases hpoint with hpoint | hpoint <;> simp [hpoint] at hholds
      · simp [hpoint] at hholds

private theorem Inv.exists_canMove_of_asleep {w : World n} (h : w.Inv) {m : Model n}
    (hpoint : w.scheduler = .awaitEnd m)
    (hasleep : .scheduler ∈ w.endLock.waiting) : ∃ m', w.CanMove (.infer m') := by
  have hbusy : w.Busy m := (h.token.issued m).mpr (by rw [hpoint]; rfl)
  rcases hbusy with hflag | hrunning | hflag
  · have hawake : .infer m ∉ w.startLock.waiting := by
      intro hmem
      have hnotify := h.awake.start m hmem hflag
      rw [hpoint] at hnotify
      cases hnotify
    rcases h.free_startLock (by simp [hpoint]) hawake with hfree | hmove
    · refine ⟨m, canMove_infer (fun _ => hfree) fun hend => absurd ?_ (h.token.start_running m hflag)⟩
      rw [hend]
      trivial
    · exact hmove
  · have hawake : .infer m ∉ w.endLock.waiting := by
      rcases h.locks.end_waiting with hnone | ⟨hone, -⟩
      · simp [hnone]
      · simp [hone]
    rcases h.free_endLock (by simp [hpoint]) hawake with hfree | hmove
    · refine ⟨m, canMove_infer (fun hstart => ?_) fun _ => hfree⟩
      rcases hstart with hstart | hstart <;> rw [hstart] at hrunning <;> cases hrunning
    · exact hmove
  · have hnotify := h.awake.stop hasleep m hflag
    exact ⟨m, canMove_infer (by simp [hnotify]) (by simp [hnotify])⟩

/-- No deadlock: outside of a selection some party can always move. -/
theorem Inv.exists_canMove {w : World n} (h : w.Inv) (hselect : w.scheduler ≠ .select) : ∃ p, w.CanMove p := by
  have hstart : .scheduler ∉ w.startLock.waiting := by
    intro hmem
    obtain ⟨m, hm, -⟩ := h.locks.start_waiting _ hmem
    cases hm
  by_cases hasleep : .scheduler ∈ w.endLock.waiting
  · rcases h.locks.end_waiting with hnone | ⟨-, m, hpoint⟩
    · simp [hnone] at hasleep
    · obtain ⟨m', hmove⟩ := h.exists_canMove_of_asleep hpoint hasleep
      exact ⟨_, hmove⟩
  · by_cases hholdsStart : w.scheduler.HoldsStart
    · refine ⟨.scheduler, canMove_scheduler hselect (fun m hm => ?_) fun m hm => ?_⟩
      · simp [hm] at hholdsStart
      · rcases hm with hm | hm <;> simp [hm] at hholdsStart
    · by_cases hholdsEnd : w.scheduler.HoldsEnd
      · refine ⟨.scheduler, canMove_scheduler hselect (fun m hm => ?_) fun m hm => ?_⟩
        · simp [hm] at hholdsEnd
        · rcases hm with hm | hm <;> simp [hm] at hholdsEnd
      · rcases h.free_startLock hholdsStart hstart with hfreeStart | ⟨m', hmove⟩
        · rcases h.free_endLock hholdsEnd hasleep with hfreeEnd | ⟨m', hmove⟩
          · exact ⟨.scheduler, canMove_scheduler hselect (fun _ _ => hfreeStart) fun _ _ => hfreeEnd⟩
          · exact ⟨_, hmove⟩
        · exact ⟨_, hmove⟩

theorem run_snoc (w : World n) (schedule : List (Turn n)) (turn : Turn n) :
    w.run (schedule ++ [turn]) = (w.run schedule).step turn := by
  simp [run]

/-- In a run in which every party takes turns for ever, the scheduler selects again and again. -/
theorem select_again (turns : ℕ → Turn n) (hfair : FairTurns Turn.party turns) (k : ℕ) :
    ∃ k', k ≤ k' ∧ (run {} ((List.range k').map turns)).scheduler = .select := by
  refine exists_goal_of_fairTurns Inv (fun w => w.scheduler = .select) rank
    (fun w turn h => h.step turn) (fun w turn h hselect => ?_) (fun w h hselect => h.exists_canMove hselect)
    hfair (fun k => run {} ((List.range k).map turns)) (fun k => ?_) (Inv.initial.run _)
  · cases turn with
    | scheduler decision => exact rank_stepScheduler h hselect decision
    | infer m => exact rank_stepInfer h m
  · rw [List.range_succ, List.map_append, List.map_singleton, run_snoc]

/-- After every run at most one thread is busy; the history is a sequence of rounds, in which each
dispatch is consumed once, by its own process, with one `get` on the queue of its task before the
scheduler leaves its wait; while the scheduler selects, the last round is over and no flag is set;
and in a fair run the scheduler selects again and again, so that every round comes to its end. -/
theorem handshake_rounds (n : Nat) :
    (∀ schedule : List (Turn n),
      (∀ m m', (run {} schedule).Busy m → (run {} schedule).Busy m' → m = m') ∧
      ((run {} schedule).scheduler = .select →
        ∀ t < 2 * n, (run {} schedule).startFlag t = false ∧ (run {} schedule).endFlag t = false) ∧
      ∃ (rounds : List (Round n)) (last : List (Event n)),
        (run {} schedule).history = rounds.flatMap Round.events ++ last ∧
        ((run {} schedule).scheduler = .select → last = []) ∧
        (last = [] ∨ ∃ m, last <+: [.dispatch m, .consume m, .get m m.task, .finish m])) ∧
    ∀ turns : ℕ → Turn n, FairTurns Turn.party turns →
      ∀ k, ∃ k', k ≤ k' ∧ (run {} ((List.range k').map turns)).scheduler = .select := by
  refine ⟨fun schedule => ?_, select_again⟩
  have h := Inv.initial.run schedule
  obtain ⟨rounds, hrounds⟩ := h.recorded
  refine ⟨fun _ _ => h.busy_unique, fun hselect _ ht => h.flags_of_select hselect ht, rounds, _, hrounds,
    fun hselect => ?_, opened_prefix _⟩
  unfold opened
  rw [hselect]

/-- The three parties in turn; the scheduler always runs the second variant of the only task. -/
def everyThird (k : ℕ) : Turn 1 :=
  match k % 3 with
  | 0 => .scheduler (.run ⟨0, 1⟩)
  | 1 => .infer ⟨0, 0⟩
  | _ => .infer ⟨0, 1⟩

private theorem fairTurns_everyThird : FairTurns Turn.party everyThird := by
  intro p k
  have hmod (r : ℕ) (hr : r < 3) : (3 * k + r) % 3 = r := by omega
  cases p with
  | scheduler => exact ⟨3 * k + 0, by omega, by rw [everyThird, hmod 0 (by omega)]; rfl⟩
  | infer m =>
    obtain ⟨task, mv⟩ := m
    obtain rfl : task = 0 := Subsingleton.elim _ _
    match mv with
    | 0 => exact ⟨3 * k + 1, by omega, by rw [everyThird, hmod 1 (by omega)]; rfl⟩
    | 1 => exact ⟨3 * k + 2, by omega, by rw [everyThird, hmod 2 (by omega)]; rfl⟩

/-- The parties in turn: after a hundred steps the scheduler selects again. -/
theorem handshake_rounds_everyThird :
    ∃ k, 100 ≤ k ∧ (run {} ((List.range k).map everyThird)).scheduler = .select :=
  (handshake_rounds 1).2 everyThird fairTurns_everyThird 100

/-- A round of the second variant of the only task, whose process sleeps before it is dispatched. -/
example :
    let m : Model 1 := ⟨0, 1⟩
    let w := run {} (List.replicate 3 (.infer m) ++ List.replicate 8 (.scheduler (.run m)) ++
      List.replicate 12 (.infer m) ++ List.replicate 4 (.scheduler .idle))
    w.scheduler = .select ∧ w.history = [.dispatch m, .consume m, .get m 0, .finish m, .leave m] := by
  decide

end World

end Soar.Scheduler
