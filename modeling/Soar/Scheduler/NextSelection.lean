import Soar.Scheduler.TaskSelection

/-! The job that the back-off selection expects next. -/
namespace Soar.Scheduler
open Soar.Library

/-- A job of task `j` that has not expired, with the remaining time `r`, may come after the head of task `i`. -/
def LocalScheduler.NextJob (s : LocalScheduler) (queues : Queues) (curTime : ℚ) (i j : Nat) (r : ℚ) : Prop :=
  j < s.taskNum ∧ (∃ time, queues.candidate i j = some time ∧ r = s.remainTime j time curTime) ∧ 0 ≤ r

section
variable {argmin : Argmin} {s : LocalScheduler} {queues : Queues} {curTime : ℚ} {i : Nat} {r : ℚ}

private theorem unexpired_eq_coe_iff {job : Option ℚ} :
    s.unexpired i curTime job = (r : Time) ↔ (∃ time, job = some time ∧ r = s.remainTime i time curTime) ∧ 0 ≤ r := by
  cases job with
  | none => simp [LocalScheduler.unexpired]
  | some time =>
    simp only [LocalScheduler.unexpired, Option.some.injEq, exists_eq_left']
    split_ifs with hexpired
    · apply iff_of_false WithTop.top_ne_coe
      rintro ⟨rfl, hr⟩
      exact absurd hexpired hr.not_gt
    · rw [WithTop.coe_inj]
      constructor
      · rintro rfl
        exact ⟨rfl, not_lt.mp hexpired⟩
      · rintro ⟨rfl, -⟩
        rfl

/-- The list of the times for the next task has them all. -/
theorem LocalScheduler.nextTimes_lists (s : LocalScheduler) (queues : Queues) (curTime : ℚ) (i : Nat) :
    Lists (s.NextJob queues curTime i) (s.nextTimes queues curTime i) := by
  intro j r
  unfold LocalScheduler.NextJob LocalScheduler.nextTimes
  rw [getElem?_map_range, ← unexpired_eq_coe_iff]
  by_cases hj : j < s.taskNum
  · rw [if_pos hj, and_iff_right hj, Option.some_inj]
  · rw [if_neg hj]
    exact iff_of_false (fun h => hj h.1) nofun

/-- The next job is the first most urgent of the jobs that may come next, and there is none exactly if the
next task is -1. -/
theorem selectNext_spec (argmin : Argmin) (s' : LocalScheduler) (hi : i < s.taskNum) :
    let next := s'.selectNext argmin (s.nextTimes queues curTime i)
    ((∃ j r, s.NextJob queues curTime i j r) →
      ∃ (j : Nat) (r : ℚ), FirstLeast (s.NextJob queues curTime i) j r ∧ next.nextSelectedTask = j ∧
        next.nextRemainTime = r) ∧
      (next.nextSelectedTask = -1 ↔ ¬ ∃ j r, s.NextJob queues curTime i j r) := by
  have hne : s.nextTimes queues curTime i ≠ [] := by
    rw [← List.length_pos_iff]
    simpa [LocalScheduler.nextTimes] using Nat.zero_lt_of_lt hi
  unfold LocalScheduler.selectNext
  dsimp only
  obtain ⟨least, hleast⟩ := argmin.spec _ hne
  rcases (s.nextTimes_lists queues curTime i).firstLeast hleast with ⟨htop, hnone⟩ | ⟨r, hget, hfirst⟩
  · rw [if_pos htop]
    have hempty : ¬ ∃ j r, s.NextJob queues curTime i j r := by
      rintro ⟨j, r, hj⟩
      exact hnone j r hj
    exact ⟨fun hone => absurd hone hempty, fun _ => hempty, fun _ => rfl⟩
  · rw [if_neg (hget.trans_ne WithTop.coe_ne_top)]
    refine ⟨fun _ => ⟨_, r, hfirst, rfl, hget⟩, fun hone => ?_, fun hnone => absurd ⟨_, r, hfirst.holds⟩ hnone⟩
    dsimp only at hone
    omega

/-- The selected task is the first whose head has the least remaining time. Unless that head has expired, the
next task is the first most urgent one among the unexpired heads of the others and the second job of the
selected task. -/
theorem next_selected (argmin : Argmin) (hpos : ∀ i < s.taskNum, ∀ time ∈ (queues i).take 2, 0 < time)
    (hsome : ∃ i < s.taskNum, queues i ≠ []) :
    let selected := (s.selectModelBackoff argmin queues curTime).1
    ∃ (i : Nat) (r : ℚ), s.MostUrgent queues curTime i r ∧ selected.selectedTask = i ∧ (0 ≤ r →
      ((∃ j t, s.NextJob queues curTime i j t) → ∃ (j : Nat) (t : ℚ), FirstLeast (s.NextJob queues curTime i) j t ∧
        selected.nextSelectedTask = j ∧ selected.nextRemainTime = t) ∧
      (selected.nextSelectedTask = -1 ↔ ¬ ∃ j t, s.NextJob queues curTime i j t)) := by
  intro selected
  obtain ⟨i, r, h⟩ : ∃ i r, s.MostUrgent queues curTime i r := exists_mostUrgent hsome
  refine ⟨i, r, h, (h.selectModelBackoff hpos).1, fun hr => ?_⟩
  have hselected : selected = ((s.readQueues queues).select i).selectNext argmin (s.nextTimes queues curTime i) := by
    unfold selected
    rw [h.selectModelBackoff_eq hpos, if_neg hr.not_gt]
  rw [hselected]
  exact selectNext_spec argmin _ h.remaining.1

end

/-- Two tasks with deadlines of one second and of half a second. -/
def twoTasks : LocalScheduler where
  taskNum := 2
  ddlAll := fun i => if i = 0 then 1000 else 500
  posttime := fun _ => 0
  profiles := fun _ => (1 / 8, 1 / 16)
  taskIds := fun i => i

/-- The head of task 1 is selected, and the head of task 0 is more urgent than the second job of task 1. -/
theorem next_selected_twoTasks :
    let queues : Queues := fun i => if i = 0 then [10] else [10, 11]
    let selected := (twoTasks.selectModelBackoff .first queues 10).1
    (∃ (i : Nat) (r : ℚ), twoTasks.MostUrgent queues 10 i r ∧ selected.selectedTask = i ∧ (0 ≤ r →
      ((∃ j t, twoTasks.NextJob queues 10 i j t) → ∃ (j : Nat) (t : ℚ), FirstLeast (twoTasks.NextJob queues 10 i) j t ∧
        selected.nextSelectedTask = j ∧ selected.nextRemainTime = t) ∧
      (selected.nextSelectedTask = -1 ↔ ¬ ∃ j t, twoTasks.NextJob queues 10 i j t))) ∧
      selected.selectedTask = 1 ∧ selected.nextSelectedTask = 0 := by
  exact ⟨next_selected .first (by decide) ⟨0, by decide, by decide⟩, by decide +kernel, by decide +kernel⟩

end Soar.Scheduler
