import Mathlib.Tactic.Linarith
import Soar.Library.AlongRun
import Soar.Scheduler.HandshakeRuns
import Soar.Scheduler.MissRate
import Soar.Scheduler.TaskSelection

/-! Which of the jobs that `local_scheduling` reports are counted as missed. -/
namespace Soar.Scheduler
open Soar.Library

/-- What one iteration of `local_scheduling` reads off the queues and the clock. -/
structure Readings where
  queues : Queues
  curTime : ℚ
  currentTime : ℚ
  recvTime : ℚ
  endTime : ℚ

/-- A job reported through `write_to_results`, run or dropped. -/
structure ReportedJob where
  report : Report
  dropped : Bool

namespace LocalScheduler

variable (argmin : Argmin) (s : LocalScheduler) (r : Readings)

def turn : LocalScheduler × Outcome := s.iteration argmin r.queues r.curTime r.currentTime

/-- The job that an iteration reports. A dropped one is marked by `missing=-1`. -/
def reportedJob : Option ReportedJob :=
  let (s', outcome) := s.turn argmin r
  match outcome with
  | .idle => none
  | .dropped task => some
    { report :=
        { appid := s'.selectedTaskId
          startTime := s'.startTime task
          recvTime := r.recvTime
          endTime := r.endTime
          selectMv := 0
          ddl := s'.ddl task
          missing := -1 }
      dropped := true }
  | .dispatched task variant => some
    { report :=
        { appid := s'.selectedTaskId
          startTime := s'.startTime task
          recvTime := r.recvTime
          endTime := r.endTime
          selectMv := variant
          ddl := s'.ddl task }
      dropped := false }

/-- All jobs reported in a run. -/
def reportedJobs : LocalScheduler → List Readings → List ReportedJob
  | _, [] => []
  | s, r :: run => (s.reportedJob argmin r).toList ++ reportedJobs (s.turn argmin r).1 run

/-- If the iteration drops a job, it reports this after the deadline of the job. -/
def DropsLate : Prop :=
  ∀ task, (s.turn argmin r).2 = .dropped task →
    (readTimes (r.queues task)).1 + s.ddl task < r.endTime

end LocalScheduler

/-- One iteration of `local_scheduling`, with the effects of its report. -/
def localScheduling (argmin : Argmin) (w : LocalScheduler × Results) (r : Readings) : LocalScheduler × Results :=
  ((w.1.turn argmin r).1, (w.1.reportedJob argmin r).elim w.2 fun job => writeToResults w.2 job.report)

/-- The job has ended after its deadline. -/
def ReportedJob.Late (job : ReportedJob) : Prop := job.report.startTime + job.report.ddl < job.report.endTime

instance (job : ReportedJob) : Decidable job.Late := inferInstanceAs (Decidable (_ < _))

/-- At the end of the run, `MISSING_RATE` has the jobs of each app, and those that were dropped or late. -/
def MissesCounted (argmin : Argmin) (s : LocalScheduler) (run : List Readings) : Prop :=
  ∀ app, counts (run.foldl (localScheduling argmin) (s, {})).2.missingRate app =
    ((s.reportedJobs argmin run).countP (·.report.appid = app),
      (s.reportedJobs argmin run).countP fun job => job.report.appid = app ∧ (job.dropped = true ∨ job.Late))

/-- The loop writes to the results what its iterations report. -/
theorem results_localScheduling (argmin : Argmin) (s : LocalScheduler) (results : Results) (run : List Readings) :
    (run.foldl (localScheduling argmin) (s, results)).2 =
      ((s.reportedJobs argmin run).map ReportedJob.report).foldl writeToResults results := by
  induction run generalizing s results with
  | nil => rfl
  | cons r run ih =>
    rw [List.foldl_cons]
    unfold localScheduling LocalScheduler.reportedJobs
    rw [List.map_append, List.foldl_append]
    cases s.reportedJob argmin r with
    | none => exact ih _ _
    | some job => exact ih _ _

/-- The marker of a dropped job is not the one that is looked for. -/
theorem LocalScheduler.missed_iff_late {argmin : Argmin} {s : LocalScheduler} {r : Readings} {job : ReportedJob}
    (h : s.reportedJob argmin r = some job) : job.report.Missed ↔ job.Late := by
  have hmarker : job.report.missing ≠ 2 := by
    unfold LocalScheduler.reportedJob at h
    dsimp only at h
    split at h
    · exact absurd h nofun
    · obtain rfl := Option.some_inj.mp h
      change (-1 : Int) ≠ 2
      decide
    · obtain rfl := Option.some_inj.mp h
      change (1 : Int) ≠ 2
      decide
  unfold Report.Missed ReportedJob.Late
  rw [or_iff_right hmarker, lt_sub_iff_add_lt']

theorem LocalScheduler.turn_keeps (argmin : Argmin) (s : LocalScheduler) (r : Readings) :
    (s.turn argmin r).1.startTime = (s.readQueues r.queues).startTime ∧ (s.turn argmin r).1.ddlAll = s.ddlAll := by
  have hselect : (s.selectModelBackoff argmin r.queues r.curTime).1.startTime = (s.readQueues r.queues).startTime ∧
      (s.selectModelBackoff argmin r.queues r.curTime).1.ddlAll = s.ddlAll := by
    unfold LocalScheduler.selectModelBackoff LocalScheduler.selectNext
    dsimp only
    split_ifs <;> exact ⟨rfl, rfl⟩
  unfold LocalScheduler.turn LocalScheduler.iteration
  dsimp only
  split_ifs <;> exact hselect

/-- A job that is dropped is the head of its queue. -/
theorem LocalScheduler.startTime_of_dropped {argmin : Argmin} {s : LocalScheduler} {r : Readings} {task : Nat}
    (h : (s.turn argmin r).2 = .dropped task) : (s.turn argmin r).1.startTime task = (readTimes (r.queues task)).1 := by
  obtain ⟨decision, hdecision⟩ := exists_decision_of_iteration argmin s r.queues r.curTime r.currentTime
  have houtcome : decision.outcome = .dropped task := hdecision.trans h
  cases decision with
  | idle => exact absurd houtcome nofun
  | run m => exact absurd houtcome nofun
  | drop i =>
    obtain rfl : i.val = task := Outcome.dropped.inj houtcome
    rw [(s.turn_keeps argmin r).1]
    exact if_pos i.isLt

theorem LocalScheduler.dropsLate_iff (argmin : Argmin) (s : LocalScheduler) (r : Readings) :
    s.DropsLate argmin r ↔ ∀ job ∈ s.reportedJob argmin r, job.dropped = true → job.Late := by
  unfold LocalScheduler.DropsLate LocalScheduler.reportedJob ReportedJob.Late
  dsimp only
  cases houtcome : (s.turn argmin r).2 with
  | idle => simp
  | dispatched task variant => simp
  | dropped task =>
    simp only [Outcome.dropped.injEq, forall_eq', Option.mem_def, Option.some.injEq, forall_const]
    rw [startTime_of_dropped houtcome, LocalScheduler.ddl, LocalScheduler.ddl, (s.turn_keeps argmin r).2]

/-- All iterations of a run drop late exactly if all its dropped jobs are late. -/
theorem alongRun_dropsLate_iff (argmin : Argmin) (s : LocalScheduler) (results : Results) (run : List Readings) :
    AlongRun (localScheduling argmin) (fun w r => w.1.DropsLate argmin r) (s, results) run ↔
      ∀ job ∈ s.reportedJobs argmin run, job.dropped = true → job.Late := by
  induction run generalizing s results with
  | nil => exact iff_of_true trivial fun _ hnone => absurd hnone List.not_mem_nil
  | cons r run ih =>
    unfold AlongRun LocalScheduler.reportedJobs
    rw [ih, s.dropsLate_iff argmin r, List.forall_mem_append]
    exact and_congr_left fun _ => forall_congr' fun job => imp_congr_left Option.mem_toList.symm

/-- Two counts of which one is of a stronger condition. -/
theorem countP_eq_iff_of_imp {α : Type} {p q : α → Bool} {l : List α} (h : ∀ x ∈ l, p x = true → q x = true) :
    l.countP p = l.countP q ↔ ∀ x ∈ l, q x = true → p x = true := by
  induction l with
  | nil => exact iff_of_true rfl fun _ hnone => absurd hnone List.not_mem_nil
  | cons x l ih =>
    have htail := fun y hy => h y (List.mem_cons_of_mem x hy)
    rw [List.forall_mem_cons, ← ih htail]
    by_cases hq : q x = true
    · rw [List.countP_cons_of_pos hq]
      by_cases hp : p x = true
      · rw [List.countP_cons_of_pos hp, Nat.add_right_cancel_iff]
        exact (and_iff_right fun _ => hp).symm
      · have hle := List.countP_mono_left htail
        rw [List.countP_cons_of_neg hp]
        exact iff_of_false (by omega) fun hall => hp (hall.1 hq)
    · have hp : ¬p x = true := fun hp => hq (h x (List.mem_cons_self ..) hp)
      rw [List.countP_cons_of_neg hq, List.countP_cons_of_neg hp]
      exact (and_iff_right fun hq' => absurd hq' hq).symm

/-- A job that is reported counts as missed exactly if it is late. -/
theorem missed_iff_late_of_mem {argmin : Argmin} {s : LocalScheduler} {run : List Readings} {job : ReportedJob}
    (h : job ∈ s.reportedJobs argmin run) : job.report.Missed ↔ job.Late := by
  induction run generalizing s with
  | nil => exact absurd h List.not_mem_nil
  | cons r run ih =>
    rcases List.mem_append.mp h with hfirst | hlater
    · exact LocalScheduler.missed_iff_late (Option.mem_toList.mp hfirst)
    · exact ih hlater

/-- What is counted: all jobs, and the late ones. -/
theorem counts_localScheduling {argmin : Argmin} {s : LocalScheduler} {run : List Readings}
    (h : (s.reportedJobs argmin run).length < 500)
    (app : Int) : counts (run.foldl (localScheduling argmin) (s, {})).2.missingRate app =
      ((s.reportedJobs argmin run).countP (·.report.appid = app),
        (s.reportedJobs argmin run).countP fun job => job.report.appid = app ∧ job.Late) := by
  have hroom : ({} : Results).count % 500 + ((s.reportedJobs argmin run).map ReportedJob.report).length < 500 := by
    rw [List.length_map]
    exact (Nat.zero_add _).trans_lt h
  have hlate : (s.reportedJobs argmin run).countP ((fun c : Report => decide
      (c.appid = app ∧ c.Missed)) ∘ ReportedJob.report) =
      (s.reportedJobs argmin run).countP fun job => job.report.appid = app ∧ job.Late := by
    apply List.countP_congr
    intro job hjob
    simp only [Function.comp_apply, decide_eq_true_eq, missed_iff_late_of_mem hjob]
  rw [results_localScheduling, (foldl_writeToResults hroom).2.1, counts_foldl_tally, List.countP_map, List.countP_map,
    hlate]
  exact Prod.ext (Nat.zero_add _) (Nat.zero_add _)

/-- In fewer than 500 reports, all dropped and late jobs are counted as missed exactly if each iteration that
drops a job does this after the deadline of the job. -/
theorem missesCounted_iff (argmin : Argmin) (s : LocalScheduler) (run : List Readings)
    (h : (s.reportedJobs argmin run).length < 500) :
    MissesCounted argmin s run ↔ AlongRun (localScheduling argmin) (fun w r => w.1.DropsLate argmin r) (s, {}) run := by
  rw [alongRun_dropsLate_iff]
  have hcount : ∀ app, counts (run.foldl (localScheduling argmin) (s, {})).2.missingRate app =
        ((s.reportedJobs argmin run).countP (·.report.appid = app), (s.reportedJobs argmin run).countP fun job =>
          job.report.appid = app ∧ (job.dropped = true ∨ job.Late)) ↔
      ∀ job ∈ s.reportedJobs argmin run, job.report.appid = app → job.dropped = true → job.Late := by
    intro app
    rw [counts_localScheduling h, Prod.mk.injEq, and_iff_right rfl, countP_eq_iff_of_imp]
    · simp only [decide_eq_true_eq]
      apply forall₂_congr
      intro job _
      constructor
      · exact fun hall happ hdropped => (hall ⟨happ, .inl hdropped⟩).2
      · exact fun hall hmissed => ⟨hmissed.1, hmissed.2.elim (hall hmissed.1) id⟩
    · intro job _ hjob
      have hlate := of_decide_eq_true hjob
      exact decide_eq_true ⟨hlate.1, .inr hlate.2⟩
  constructor
  · intro hall job hjob
    exact (hcount job.report.appid).mp (hall job.report.appid) job hjob rfl
  · exact fun hall app => (hcount app).mpr fun job hjob _ => hall job hjob

/-- Two jobs due at 11 s and 1/64 s later. The first is dropped 1/64 s before its deadline, too late for the smaller
variant. -/
def hopelessJob : Readings where
  queues := fun _ => [10, 641 / 64]
  curTime := 703 / 64
  currentTime := 703 / 64
  recvTime := 703 / 64
  endTime := 703 / 64

/-- A job whose deadline at 11 s has gone by when it is dropped. -/
def expiredJob : Readings where
  queues := fun _ => [10]
  curTime := 25 / 2
  currentTime := 25 / 2
  recvTime := 25 / 2
  endTime := 25 / 2

/-- The only job has expired and is dropped. -/
theorem missesCounted_expiredJob :
    (oneTask.turn .first expiredJob).2 = .dropped 0 ∧ MissesCounted .first oneTask [expiredJob] :=
  ⟨by decide +kernel, (missesCounted_iff .first oneTask [expiredJob] (by decide +kernel)).mpr
    ((alongRun_dropsLate_iff ..).mpr (by decide +kernel))⟩

/-- The job is dropped before its deadline, and not counted. -/
theorem not_missesCounted_hopelessJob :
    ¬∀ (argmin : Argmin) (s : LocalScheduler) (run : List Readings), (s.reportedJobs argmin run).length < 500 →
      MissesCounted argmin s run := by
  intro h
  have hcounts := h .first oneTask [hopelessJob] (by decide +kernel) 10101
  revert hcounts
  decide +kernel

end Soar.Scheduler
