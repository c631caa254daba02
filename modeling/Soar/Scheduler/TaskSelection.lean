import Soar.Library.FirstLeast
import Soar.Scheduler.LocalScheduler

/-! Which task an iteration of the scheduler selects, and when it drops the head of its queue. -/
namespace Soar.Scheduler
open Soar.Library

/-- The head of the queue of task `i` has the remaining time `r`. -/
def LocalScheduler.Remaining (s : LocalScheduler) (queues : Queues) (curTime : ℚ) (i : Nat) (r : ℚ) : Prop :=
  i < s.taskNum ∧ ∃ time, (queues i).head? = some time ∧ r = s.remainTime i time curTime

/-- Task `i` is the first whose head has the least remaining time `r`. -/
structure LocalScheduler.MostUrgent (s : LocalScheduler) (queues : Queues) (curTime : ℚ) (i : Nat) (r : ℚ) :
    Prop where
  remaining : s.Remaining queues curTime i r
  least : ∀ j r', s.Remaining queues curTime j r' → r ≤ r'
  first : ∀ j < i, ∀ r', s.Remaining queues curTime j r' → r < r'

/-- Both selections name the same task and return the least remaining time, and an iteration drops
the head of this task exactly if that time is less than the smaller variant needs. -/
def LocalScheduler.SelectsByRemaining (argmin : Argmin) (s : LocalScheduler) (queues : Queues)
    (curTime currentTime : ℚ) : Prop :=
  ∃ (i : Nat) (r : ℚ), s.MostUrgent queues curTime i r ∧
    (s.selectModelBackoff argmin queues curTime).1.selectedTask = i ∧
      (s.selectModelBackoff argmin queues curTime).2 = r ∧
    (s.selectModel argmin queues curTime).1.selectedTask = i ∧ (s.selectModel argmin queues curTime).2 = r ∧
    ((s.iteration argmin queues curTime currentTime).2 = .dropped i ↔ r < (s.profiles i).2)

theorem LocalScheduler.mostUrgent_iff {s : LocalScheduler} {queues : Queues} {curTime : ℚ} {i : Nat} {r : ℚ} :
    s.MostUrgent queues curTime i r ↔ FirstLeast (s.Remaining queues curTime) i r :=
  ⟨fun h => ⟨h.remaining, h.least, h.first⟩, fun h => ⟨h.holds, h.least, h.first⟩⟩

section Select

variable {argmin : Argmin} {s : LocalScheduler} {queues : Queues} {curTime : ℚ} {i : Nat} {r : ℚ}

/-- The remaining times of the heads. -/
def LocalScheduler.headTimes (s : LocalScheduler) (queues : Queues) (curTime : ℚ) : List Time :=
  (List.range s.taskNum).map fun i => (queues i).head?.elim ⊤ fun time => (s.remainTime i time curTime : Time)

private theorem length_headTimes : (s.headTimes queues curTime).length = s.taskNum := by
  simp [LocalScheduler.headTimes]

theorem getElem?_map_range {n j : Nat} (f : Nat → Time) :
    ((List.range n).map f)[j]? = if j < n then some (f j) else none := by
  rw [List.getElem?_map]
  split_ifs with hj
  · rw [List.getElem?_range hj]
    rfl
  · rw [List.getElem?_eq_none (by simpa using hj)]
    rfl

/-- The list of the remaining times has those of all queues with a job. -/
theorem LocalScheduler.headTimes_lists (s : LocalScheduler) (queues : Queues) (curTime : ℚ) :
    Lists (s.Remaining queues curTime) (s.headTimes queues curTime) := by
  intro j t
  unfold LocalScheduler.headTimes LocalScheduler.Remaining
  rw [getElem?_map_range]
  by_cases hj : j < s.taskNum
  · cases (queues j).head? with
    | none => simp [hj]
    | some time => simp [hj, eq_comm]
  · simp [hj]

private theorem readTimes_fst {queue : List ℚ} (hpos : ∀ time ∈ queue.take 2, 0 < time) :
    (readTimes queue).1 = (queue.head?).getD 0 ∧ ((readTimes queue).1 = 0 ↔ queue.head? = none) := by
  match queue with
  | [] => simp [readTimes]
  | [time] => simpa [readTimes] using (hpos time (by simp)).ne'
  | time :: _ :: _ => simpa [readTimes] using (hpos time (by simp)).ne'

private theorem readTimes_snd {queue : List ℚ} (hpos : ∀ time ∈ queue.take 2, 0 < time) :
    (readTimes queue).2 = (queue[1]?).getD 0 ∧ ((readTimes queue).2 = 0 ↔ queue[1]? = none) := by
  match queue with
  | [] => simp [readTimes]
  | [time] => simp [readTimes]
  | time :: next :: _ => simpa [readTimes] using (hpos next (by simp)).ne'

/-- The list of the selection, in which the time 0 stands for no job. -/
theorem remainTimes_eq (hpos : ∀ i < s.taskNum, ∀ time ∈ (queues i).take 2, 0 < time) :
    (s.readQueues queues).remainTimes curTime = s.headTimes queues curTime := by
  apply List.map_congr_left
  intro j hj
  have hj : j < s.taskNum := List.mem_range.mp hj
  obtain ⟨hfst, hzero⟩ := readTimes_fst (hpos j hj)
  simp only [LocalScheduler.readQueues, if_pos hj, hzero]
  cases hhead : (queues j).head? with
  | none => rfl
  | some time =>
    rw [hhead, Option.getD_some] at hfst
    simp only [reduceCtorEq, if_false, hfst]
    rfl

private theorem LocalScheduler.MostUrgent.index (argmin : Argmin) (h : s.MostUrgent queues curTime i r) :
    argmin.index (s.headTimes queues curTime) = i ∧ (s.headTimes queues curTime).getD i ⊤ = (r : Time) := by
  have hne : s.headTimes queues curTime ≠ [] := by
    rw [← List.length_pos_iff, length_headTimes]
    exact Nat.zero_lt_of_lt h.remaining.1
  obtain ⟨least, hleast⟩ := argmin.spec _ hne
  rcases (s.headTimes_lists queues curTime).firstLeast hleast with ⟨-, hnone⟩ | ⟨t, hget, hfirst⟩
  · exact absurd h.remaining (hnone i r)
  · obtain ⟨hi, rfl⟩ := hfirst.unique (LocalScheduler.mostUrgent_iff.mp h)
    exact ⟨hi, hi ▸ hget⟩

private theorem LocalScheduler.MostUrgent.noneTimes (h : s.MostUrgent queues curTime i r) :
    s.noneTimes queues ≠ s.taskNum := by
  obtain ⟨hi, time, htime, -⟩ := h.remaining
  intro heq
  have hall := List.countP_eq_length.mp (heq.trans (List.length_range (n := s.taskNum)).symm)
  have hempty := hall i (List.mem_range.mpr hi)
  rw [decide_eq_true_eq, List.length_eq_zero_iff] at hempty
  simp [hempty] at htime

/-- `select_model` works on the most urgent task. -/
theorem LocalScheduler.MostUrgent.selectModel (hpos : ∀ i < s.taskNum, ∀ time ∈ (queues i).take 2, 0 < time)
    (h : s.MostUrgent queues curTime i r) : s.selectModel argmin queues curTime = ((s.readQueues queues).select i,
      (r : Time)) := by
  obtain ⟨hargmin, hget⟩ := h.index argmin
  unfold LocalScheduler.selectModel
  simp only [if_neg h.noneTimes, remainTimes_eq hpos, hargmin, hget]

/-- What is left of the remaining time of a job: nothing if there is no such job or it has expired. -/
def LocalScheduler.unexpired (s : LocalScheduler) (i : Nat) (curTime : ℚ) : Option ℚ → Time
  | none => ⊤
  | some time => if s.remainTime i time curTime < 0 then ⊤ else (s.remainTime i time curTime : Time)

/-- The job of task `j` that may come next after the head of task `i`: the head of another task, the second
job of task `i`. -/
def Queues.candidate (queues : Queues) (i j : Nat) : Option ℚ := if j = i then (queues j)[1]? else (queues j).head?

/-- The remaining times of the jobs that may come next. -/
def LocalScheduler.nextTimes (s : LocalScheduler) (queues : Queues) (curTime : ℚ) (i : Nat) : List Time :=
  (List.range s.taskNum).map fun j => s.unexpired j curTime (queues.candidate i j)

theorem nextRemainTimes_eq (hpos : ∀ i < s.taskNum, ∀ time ∈ (queues i).take 2, 0 < time) (hi : i < s.taskNum) :
    ((s.readQueues queues).select i).nextRemainTimes i curTime (s.headTimes queues curTime) =
      s.nextTimes queues curTime i := by
  obtain ⟨hsnd, hzero⟩ := readTimes_snd (hpos i hi)
  have hnext : ((s.readQueues queues).select i).nextStartTime i = (readTimes (queues i)).2 := if_pos hi
  apply List.ext_getElem?
  intro j
  unfold LocalScheduler.nextRemainTimes LocalScheduler.nextTimes Queues.candidate
  rw [getElem?_map_range, List.getElem?_map, List.getElem?_set, hnext, length_headTimes]
  by_cases hij : i = j
  · subst hij
    simp only [if_pos hi, if_true, hzero, Option.map_some]
    cases hq : (queues i)[1]? with
    | none =>
      rw [if_pos rfl, if_neg not_top_lt]
      rfl
    | some next =>
      rw [hq, Option.getD_some] at hsnd
      simp only [reduceCtorEq, if_false, hsnd, WithTop.coe_lt_coe]
      rfl
  · unfold LocalScheduler.headTimes
    rw [if_neg hij, if_neg (Ne.symm hij), getElem?_map_range]
    split_ifs
    · cases (queues j).head? with
      | none =>
        rw [Option.map_some, Option.elim_none, if_neg not_top_lt]
        rfl
      | some time =>
        simp only [Option.map_some, Option.elim_some, WithTop.coe_lt_coe]
        rfl
    · rfl

@[simp] private theorem LocalScheduler.selectNext_selectedTask (times : List Time) :
    (s.selectNext argmin times).selectedTask = s.selectedTask := by
  unfold LocalScheduler.selectNext
  dsimp only
  split_ifs <;> rfl

@[simp] private theorem LocalScheduler.selectNext_profiles (times : List Time) :
    (s.selectNext argmin times).profiles = s.profiles := by
  unfold LocalScheduler.selectNext
  dsimp only
  split_ifs <;> rfl

/-- The back-off selection. -/
theorem LocalScheduler.MostUrgent.selectModelBackoff_eq
    (hpos : ∀ i < s.taskNum, ∀ time ∈ (queues i).take 2, 0 < time) (h : s.MostUrgent queues curTime i r) :
    s.selectModelBackoff argmin queues curTime =
      if r < 0 then ((s.readQueues queues).select i, (r : Time))
      else (((s.readQueues queues).select i).selectNext argmin (s.nextTimes queues curTime i),
        (s.nextTimes queues curTime i).getD i ⊤) := by
  obtain ⟨hargmin, hget⟩ := h.index argmin
  unfold LocalScheduler.selectModelBackoff
  simp only [if_neg h.noneTimes, remainTimes_eq hpos, hargmin, hget, WithTop.coe_lt_coe,
    nextRemainTimes_eq hpos h.remaining.1]

/-- It names the same task. Unless its head has expired, it returns what is left for the job behind the head. -/
theorem LocalScheduler.MostUrgent.selectModelBackoff
    (hpos : ∀ i < s.taskNum, ∀ time ∈ (queues i).take 2, 0 < time) (h : s.MostUrgent queues curTime i r) :
    (s.selectModelBackoff argmin queues curTime).1.selectedTask = i ∧
      (s.selectModelBackoff argmin queues curTime).2 = if r < 0 then (r : Time) else s.unexpired i curTime
        (queues i)[1]? := by
  rw [h.selectModelBackoff_eq hpos]
  split_ifs with hr
  · exact ⟨rfl, rfl⟩
  · refine ⟨LocalScheduler.selectNext_selectedTask _, ?_⟩
    have hi : i < s.taskNum := h.remaining.1
    rw [List.getD_eq_getElem _ _ (by simpa [LocalScheduler.nextTimes] using hi)]
    simp [LocalScheduler.nextTimes, Queues.candidate]

end Select

section Iteration

variable {argmin : Argmin} {s : LocalScheduler} {queues : Queues} {curTime currentTime : ℚ} {i : Nat} {r : ℚ}

private theorem LocalScheduler.MostUrgent.unique {i' : Nat} {r' : ℚ} (h : s.MostUrgent queues curTime i r)
    (h' : s.MostUrgent queues curTime i' r') : i = i' ∧ r = r' :=
  (LocalScheduler.mostUrgent_iff.mp h).unique (LocalScheduler.mostUrgent_iff.mp h')

/-- Some task is most urgent when not all queues are empty. -/
theorem exists_mostUrgent (hsome : ∃ i < s.taskNum, queues i ≠ []) : ∃ i r, s.MostUrgent queues curTime i r := by
  obtain ⟨i, hi, hne⟩ := hsome
  obtain ⟨time, htime⟩ := Option.ne_none_iff_exists'.mp (mt List.head?_eq_none_iff.mp hne)
  have hnonempty : s.headTimes queues curTime ≠ [] := by
    rw [← List.length_pos_iff, length_headTimes]
    exact Nat.zero_lt_of_lt hi
  obtain ⟨least, hleast⟩ := firstLeast_spec hnonempty
  rcases (s.headTimes_lists queues curTime).firstLeast hleast with ⟨-, hnone⟩ | ⟨r, -, hfirst⟩
  · exact absurd ⟨hi, time, htime, rfl⟩ (hnone i _)
  · exact ⟨_, r, LocalScheduler.mostUrgent_iff.mpr hfirst⟩

private theorem selectModelBackoff_profiles :
    (s.selectModelBackoff argmin queues curTime).1.profiles = s.profiles := by
  unfold LocalScheduler.selectModelBackoff
  dsimp only
  split_ifs
  · rfl
  · rfl
  · exact LocalScheduler.selectNext_profiles _

private theorem iteration_dropped_iff {flag : Time}
    (hselected : (s.selectModelBackoff argmin queues curTime).1.selectedTask = i)
    (hflag : (s.selectModelBackoff argmin queues curTime).2 = flag) :
    (s.iteration argmin queues curTime currentTime).2 = .dropped i ↔
      flag ≠ (-1 : ℚ) ∧ flag < ((s.profiles i).2 : Time) := by
  have hlate : flag.map (fun time => double (time - (s.profiles i).2)) < (0 : ℚ) ↔ flag < ((s.profiles i).2 : Time) := by
    induction flag using WithTop.recTopCoe with
    | top => simp
    | coe r => simp only [WithTop.map_coe, WithTop.coe_lt_coe, double_neg_iff, sub_neg]
  unfold LocalScheduler.iteration
  simp only [hselected, hflag, selectModelBackoff_profiles, Int.toNat_natCast, hlate]
  split_ifs with hidle hlt
  · exact ⟨False.elim, fun h => h.1 hidle⟩
  · exact iff_of_true rfl ⟨hidle, hlt⟩
  · exact ⟨False.elim, fun h => hlt h.2⟩

end Iteration

/-- The inputs on which an iteration goes by the least remaining time: the most urgent head has
expired, or the job behind it has the same remaining time; and the remaining time is not the value that
stands for empty queues. -/
def LocalScheduler.Reliable (s : LocalScheduler) (queues : Queues) (curTime : ℚ) : Prop :=
  ∃ i r, s.MostUrgent queues curTime i r ∧
    (r < 0 ∧ (r = -1 → (s.profiles i).2 ≤ -1) ∨
      0 ≤ r ∧ ∃ next, (queues i)[1]? = some next ∧ s.remainTime i next curTime = r)

private theorem unexpired_eq_iff {s : LocalScheduler} {queues : Queues} {curTime : ℚ} {i : Nat} {r : ℚ} (hr : 0 ≤ r) :
    s.unexpired i curTime (queues i)[1]? = (r : Time) ↔
      ∃ next, (queues i)[1]? = some next ∧ s.remainTime i next curTime = r := by
  cases (queues i)[1]? with
  | none => simp [LocalScheduler.unexpired]
  | some next =>
    simp only [LocalScheduler.unexpired, Option.some.injEq, exists_eq_left']
    split_ifs with hlt
    · simp only [WithTop.top_ne_coe, false_iff]
      rintro rfl
      exact absurd hr hlt.not_ge
    · rw [WithTop.coe_inj]

/-- An iteration goes by the least remaining time exactly on the reliable inputs. -/
theorem selectsByRemaining_iff (argmin : Argmin) {s : LocalScheduler} {queues : Queues} {curTime : ℚ} (currentTime : ℚ)
    (hpos : ∀ i < s.taskNum, ∀ time ∈ (queues i).take 2, 0 < time) (hsome : ∃ i < s.taskNum, queues i ≠ []) :
    s.SelectsByRemaining argmin queues curTime currentTime ↔ s.Reliable queues curTime := by
  obtain ⟨i, r, h⟩ : ∃ i r, s.MostUrgent queues curTime i r := exists_mostUrgent hsome
  obtain ⟨hselected, hreturned⟩ := h.selectModelBackoff hpos
  have hdropped : (s.iteration argmin queues curTime currentTime).2 = .dropped i ↔ _ :=
    iteration_dropped_iff hselected hreturned
  have hfirst : ∀ P : Nat → ℚ → Prop, (∃ i r, s.MostUrgent queues curTime i r ∧ P i r) ↔ P i r := by
    refine fun P => ⟨?_, fun hP => ⟨i, r, h, hP⟩⟩
    rintro ⟨j, t, hj, hP⟩
    obtain ⟨rfl, rfl⟩ := h.unique hj
    exact hP
  unfold LocalScheduler.SelectsByRemaining LocalScheduler.Reliable
  rw [hfirst, hfirst, h.selectModel hpos, hselected, hdropped, hreturned]
  have hne : (r : Time) ≠ ((-1 : ℚ) : Time) ↔ r ≠ -1 := WithTop.coe_inj.not
  by_cases hr : r < 0
  · rw [if_pos hr, hne, WithTop.coe_lt_coe]
    constructor
    · rintro ⟨-, -, -, -, hiff⟩
      exact .inl ⟨hr, fun hone => not_lt.mp fun hlt => (hiff.mpr (hone ▸ hlt)).1 hone⟩
    · rintro (⟨-, hone⟩ | ⟨hr', -⟩)
      · refine ⟨rfl, rfl, rfl, rfl, fun hlt => hlt.2, fun hlt => ⟨fun heq => ?_, hlt⟩⟩
        exact absurd hlt (heq ▸ hone heq).not_gt
      · exact absurd hr hr'.not_gt
  · have hr' : 0 ≤ r := not_lt.mp hr
    rw [if_neg hr]
    constructor
    · rintro ⟨-, hflag, -⟩
      exact .inr ⟨hr', (unexpired_eq_iff hr').mp hflag⟩
    · rintro (⟨hlt, -⟩ | ⟨-, hsame⟩)
      · exact absurd hlt hr
      · rw [(unexpired_eq_iff hr').mpr hsame, hne, WithTop.coe_lt_coe]
        refine ⟨rfl, rfl, rfl, rfl, fun hlt => hlt.2, fun hlt => ⟨fun heq => ?_, hlt⟩⟩
        rw [heq] at hr'
        exact absurd hr' (by decide)

/-- One task with a deadline of one second. -/
def oneTask : LocalScheduler where
  taskNum := 1
  ddlAll := fun _ => 1000
  posttime := fun _ => 0
  profiles := fun _ => (1 / 8, 1 / 16)
  taskIds := fun _ => 10101

private theorem mostUrgent_expired : oneTask.MostUrgent (fun _ => [10]) (25 / 2) 0 (-3 / 2) := by
  refine ⟨⟨by decide, 10, rfl, by decide +kernel⟩, ?_, fun j hj => absurd hj (Nat.not_lt_zero j)⟩
  rintro j r ⟨hj, time, htime, rfl⟩
  obtain rfl : j = 0 := Nat.lt_one_iff.mp hj
  obtain rfl : 10 = time := Option.some_inj.mp htime
  decide +kernel

/-- The only job has expired. -/
theorem selectsByRemaining_iff_oneTask : oneTask.SelectsByRemaining .first (fun _ => [10]) (25 / 2) (25 / 2) :=
  (selectsByRemaining_iff .first (25 / 2) (by decide) ⟨0, by decide, by decide⟩).mpr
    ⟨0, -3 / 2, mostUrgent_expired, .inl ⟨by decide +kernel, fun hone => absurd hone (by decide +kernel)⟩⟩

/-- The only job has 1/128 s left and the smaller variant needs 1/16 s, but the returned time is infinite. -/
theorem not_selectsByRemaining_oneTask :
    (∀ i < oneTask.taskNum, ∀ time ∈ ([10] : List ℚ).take 2, 0 < time) ∧
      ¬ oneTask.SelectsByRemaining .first (fun _ => [10]) (1407 / 128) (1407 / 128) := by
  refine ⟨by decide, ?_⟩
  rintro ⟨i, r, -, -, hreturned, -⟩
  have htop : (oneTask.selectModelBackoff .first (fun _ => [10]) (1407 / 128)).2 = ⊤ := by
    decide +kernel
  rw [htop] at hreturned
  exact WithTop.top_ne_coe hreturned

end Soar.Scheduler
