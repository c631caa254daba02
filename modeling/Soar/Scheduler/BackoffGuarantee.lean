import Mathlib.Tactic.Linarith
import Soar.Scheduler.NextSelection

/-! What the back-off decision promises: the selected job and the next one by its full variant meet their deadlines. -/
namespace Soar.Scheduler
open Soar.Library

namespace LocalScheduler

variable (s : LocalScheduler) (queues : Queues) (curTime : ℚ)

/-- The timestamp of the job that may come next from queue `j` after the head of queue `i`, 0 if there is none. -/
def nextTime (i j : Nat) : ℚ := if j = i then (readTimes (queues j)).2 else (readTimes (queues j)).1

/-- The head of queue `i` has the remaining time `r`. -/
def Head (i : Nat) (r : ℚ) : Prop :=
  i < s.taskNum ∧ (readTimes (queues i)).1 ≠ 0 ∧ r = s.remainTime i (readTimes (queues i)).1 curTime

/-- A job of task `j` with the remaining time `r`, not expired, may come after the head of task `i`. -/
def Follower (i j : Nat) (r : ℚ) : Prop :=
  j < s.taskNum ∧ nextTime queues i j ≠ 0 ∧ r = s.remainTime j (nextTime queues i j) curTime ∧ 0 ≤ r

/-- When the full variant of the selected job, started at `time`, has ended with its post time. -/
def ownEnd (i : Nat) (time : ℚ) : ℚ := time + (s.profiles i).1 + s.posttime i

def ownDeadline (i : Nat) : ℚ := (readTimes (queues i)).1 + (s.ddlAll i : ℚ) / 1000

/-- When the full variants of both jobs, one after the other from `time` on, have ended. -/
def nextEnd (i j : Nat) (time : ℚ) : ℚ := time + (s.profiles i).1 + (s.profiles j).1

def nextDeadline (i j : Nat) : ℚ := nextTime queues i j + (s.ddlAll j : ℚ) / 1000

/-- What the roundings of the comparison for the selected job add to its deadline. -/
def ownRounding (i : Nat) (time : ℚ) : ℚ :=
  double ((readTimes (queues i)).1 + s.ddl i) - s.ownDeadline queues i -
    (double (double (time + (s.profiles i).1) + s.posttime i) - s.ownEnd i time)

/-- What the roundings of the comparison for the next job add to its deadline. -/
def nextRounding (i j : Nat) (time : ℚ) : ℚ :=
  time + s.remainTime j (nextTime queues i j) time - s.nextDeadline queues i j -
    (time + double ((s.profiles i).1 + (s.profiles j).1) - s.nextEnd i j time)

/-- The guarantee of the full variant: selected at `curTime` with a head that has not expired, and started at
`currentTime`, it makes neither its own job nor the next one late. -/
def BackoffGuarantee (argmin : Argmin) (currentTime : ℚ) : Prop :=
  ∀ i r, FirstLeast (s.Head queues curTime) i r → 0 ≤ r →
    (s.selectModelBackoff argmin queues curTime).1.selectVariantBackoff currentTime = 0 →
      s.ownEnd i currentTime ≤ s.ownDeadline queues i ∧
        ∀ j t, FirstLeast (s.Follower queues curTime i) j t → s.nextEnd i j currentTime ≤ s.nextDeadline queues i j

/-- The entry of a job in the lists of remaining times. -/
def entry (i : Nat) (time : ℚ) : Time := if time = 0 then ⊤ else (s.remainTime i time curTime : Time)

theorem entry_eq_coe_iff {i : Nat} {time r : ℚ} :
    s.entry curTime i time = (r : Time) ↔ time ≠ 0 ∧ r = s.remainTime i time curTime := by
  unfold entry
  split_ifs with hzero
  · exact iff_of_false WithTop.top_ne_coe fun h => h.1 hzero
  · rw [WithTop.coe_inj, and_iff_right hzero]
    exact eq_comm

/-- The remaining times, one entry for each task. -/
theorem remainTimes_entries : (s.readQueues queues).remainTimes curTime =
    (List.range s.taskNum).map fun i => s.entry curTime i (readTimes (queues i)).1 := by
  apply List.map_congr_left
  intro i hi
  have hstart : (s.readQueues queues).startTime i = (readTimes (queues i)).1 := if_pos (List.mem_range.mp hi)
  rw [hstart]
  rfl

private theorem keep_eq_coe_iff {job : Time} {r : ℚ} :
    (if job < (0 : ℚ) then (⊤ : Time) else job) = (r : Time) ↔ job = (r : Time) ∧ 0 ≤ r := by
  split_ifs with hexpired
  · apply iff_of_false WithTop.top_ne_coe
    rintro ⟨rfl, hr⟩
    exact absurd (WithTop.coe_lt_coe.mp hexpired) hr.not_gt
  · constructor
    · rintro rfl
      exact ⟨rfl, WithTop.coe_le_coe.mp (not_lt.mp hexpired)⟩
    · exact And.left

/-- The times that count for the next task: those of the others, and of the second job of the chosen one. -/
theorem nextRemainTimes_entries {i : Nat} (hi : i < s.taskNum) :
    ((s.readQueues queues).select i).nextRemainTimes i curTime ((s.readQueues queues).remainTimes curTime) =
      ((List.range s.taskNum).map fun j => s.entry curTime j (nextTime queues i j)).map
        fun job : Time => if job < (0 : ℚ) then ⊤ else job := by
  have hnext : ((s.readQueues queues).select i).nextStartTime i = (readTimes (queues i)).2 := if_pos hi
  unfold nextRemainTimes
  rw [hnext, remainTimes_entries]
  refine congrArg (List.map _) (List.ext_getElem? fun j => ?_)
  rw [List.getElem?_set, List.length_map, List.length_range, getElem?_map_range, getElem?_map_range]
  unfold nextTime
  by_cases hij : i = j
  · subst hij
    rw [if_pos rfl, if_pos hi, if_pos hi, if_pos rfl]
    rfl
  · rw [if_neg hij, if_neg (Ne.symm hij)]

theorem lists_head : Lists (s.Head queues curTime) ((s.readQueues queues).remainTimes curTime) := by
  intro i r
  rw [remainTimes_entries, getElem?_map_range]
  by_cases hi : i < s.taskNum
  · rw [if_pos hi, Option.some_inj, entry_eq_coe_iff]
    exact and_iff_right hi
  · rw [if_neg hi]
    exact iff_of_false (fun h => hi h.1) nofun

theorem lists_follower {i : Nat} (hi : i < s.taskNum) : Lists (s.Follower queues curTime i)
    (((s.readQueues queues).select i).nextRemainTimes i curTime ((s.readQueues queues).remainTimes curTime)) := by
  intro j r
  rw [nextRemainTimes_entries s queues curTime hi, List.getElem?_map, getElem?_map_range]
  by_cases hj : j < s.taskNum
  · rw [if_pos hj, Option.map_some, Option.some_inj, keep_eq_coe_iff, entry_eq_coe_iff, and_assoc]
    exact and_iff_right hj
  · rw [if_neg hj]
    exact iff_of_false (fun h => hj h.1) nofun

end LocalScheduler

section Decision

variable {argmin : Argmin} {s : LocalScheduler} {queues : Queues} {curTime currentTime : ℚ} {i : Nat} {r : ℚ}

/-- The state after a selection whose head has not expired. -/
theorem selectModelBackoff_of_head (h : FirstLeast (s.Head queues curTime) i r) (hr : 0 ≤ r) :
    (s.selectModelBackoff argmin queues curTime).1 = ((s.readQueues queues).select i).selectNext argmin
      (((s.readQueues queues).select i).nextRemainTimes i curTime ((s.readQueues queues).remainTimes curTime)) := by
  obtain ⟨hi, hhead, -⟩ := h.holds
  have hnone : s.noneTimes queues ≠ s.taskNum := by
    intro heq
    have hall := List.countP_eq_length.mp (heq.trans (List.length_range (n := s.taskNum)).symm)
    have hempty := of_decide_eq_true (hall i (List.mem_range.mpr hi))
    rw [List.length_eq_zero_iff] at hempty
    exact hhead (by rw [hempty]; rfl)
  have hne : (s.readQueues queues).remainTimes curTime ≠ [] := by
    rw [LocalScheduler.remainTimes_entries, ← List.length_pos_iff, List.length_map, List.length_range]
    exact Nat.zero_lt_of_lt hi
  obtain ⟨least, hleast⟩ := argmin.spec _ hne
  rcases (s.lists_head queues curTime).firstLeast hleast with ⟨-, hno⟩ | ⟨t, hget, hfirst⟩
  · exact absurd h.holds (hno i r)
  · obtain ⟨hindex, rfl⟩ := hfirst.unique h
    have hargmin : argmin.index ((s.readQueues queues).remainTimes curTime) = i := hindex
    rw [hindex] at hget
    unfold LocalScheduler.selectModelBackoff
    simp only [if_neg hnone, hargmin, hget, WithTop.coe_lt_coe, if_neg hr.not_gt]

/-- What the choice of the variant compares, in any state. -/
theorem selectVariantBackoff_eq_zero_iff (s : LocalScheduler) (hi : s.selectedTask = i) :
    s.selectVariantBackoff currentTime = 0 ↔
      double (double (currentTime + (s.profiles i).1) + s.posttime i) ≤ double (s.startTime i + s.ddl i) ∧
        (s.nextSelectedTask ≠ -1 →
          (double ((s.profiles i).1 + (s.profiles s.nextSelectedTask.toNat).1) : Time) ≤ s.nextRemainTime) := by
  have hsame : (if s.nextSelectedTask = (i : Int) then (s.profiles i).1
      else (s.profiles s.nextSelectedTask.toNat).1) = (s.profiles s.nextSelectedTask.toNat).1 := by
    split_ifs with heq
    · rw [heq, Int.toNat_natCast]
    · rfl
  unfold LocalScheduler.selectVariantBackoff
  simp only [hi, Int.toNat_natCast, hsame]
  split_ifs with hown hnext hlate
  · exact iff_of_false id fun h => (h.2 hnext).not_gt hlate
  · exact iff_of_true rfl ⟨hown, fun _ => not_lt.mp hlate⟩
  · exact iff_of_true rfl ⟨hown, fun h => absurd h hnext⟩
  · exact iff_of_false id fun h => hown h.1

private theorem selectNext_keeps (argmin : Argmin) (s : LocalScheduler) (times : List Time) :
    (s.selectNext argmin times).selectedTask = s.selectedTask ∧ (s.selectNext argmin times).profiles = s.profiles ∧
      (s.selectNext argmin times).posttime = s.posttime ∧ (s.selectNext argmin times).startTime = s.startTime ∧
      (s.selectNext argmin times).ddl = s.ddl := by
  unfold LocalScheduler.selectNext
  dsimp only
  split_ifs <;> exact ⟨rfl, rfl, rfl, rfl, rfl⟩

/-- The full variant is chosen if its own job is in time and the remaining time of the next job, as it was at
the selection, has room for both. -/
theorem variant_eq_zero_iff (h : FirstLeast (s.Head queues curTime) i r) (hr : 0 ≤ r) :
    (s.selectModelBackoff argmin queues curTime).1.selectVariantBackoff currentTime = 0 ↔
      double (double (currentTime + (s.profiles i).1) + s.posttime i) ≤ double ((readTimes (queues i)).1 + s.ddl i) ∧
        ∀ j t, FirstLeast (s.Follower queues curTime i) j t → double ((s.profiles i).1 + (s.profiles j).1) ≤ t := by
  have hi := h.holds.1
  rw [selectModelBackoff_of_head h hr]
  have hlists := s.lists_follower queues curTime hi
  have hne : ((s.readQueues queues).select i).nextRemainTimes i curTime
      ((s.readQueues queues).remainTimes curTime) ≠ [] := by
    rw [LocalScheduler.nextRemainTimes_entries s queues curTime hi, ← List.length_pos_iff, List.length_map,
      List.length_map, List.length_range]
    exact Nat.zero_lt_of_lt hi
  generalize ((s.readQueues queues).select i).nextRemainTimes i curTime
    ((s.readQueues queues).remainTimes curTime) = times at hlists hne
  obtain ⟨htask, hprofiles, hposttime, hstart, hddl⟩ := selectNext_keeps argmin ((s.readQueues queues).select i) times
  have hstart' : ((s.readQueues queues).select i).startTime i = (readTimes (queues i)).1 := if_pos hi
  have hddl' : ((s.readQueues queues).select i).ddl = s.ddl := rfl
  rw [selectVariantBackoff_eq_zero_iff _ htask, hprofiles, hposttime, hstart, hddl, hstart', hddl']
  apply and_congr_right
  intro _
  unfold LocalScheduler.selectNext
  dsimp only
  obtain ⟨least, hleast⟩ := argmin.spec _ hne
  rcases hlists.firstLeast hleast with ⟨htop, hnone⟩ | ⟨t, hget, hfirst⟩
  · rw [if_pos htop]
    exact iff_of_true (fun h => absurd rfl h) fun j t hj => absurd hj.holds (hnone j t)
  · rw [if_neg (hget.trans_ne WithTop.coe_ne_top)]
    dsimp only
    rw [hget, Int.toNat_natCast, WithTop.coe_le_coe]
    constructor
    · intro hroom j t' hj
      obtain ⟨rfl, rfl⟩ := hfirst.unique hj
      exact hroom (by omega)
    · exact fun hroom _ => hroom _ t hfirst

end Decision

end Soar.Scheduler
