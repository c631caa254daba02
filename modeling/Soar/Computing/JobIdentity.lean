import Soar.Computing.ConsumerCorrectness
import Soar.Computing.JobSteps

/-! The job that the scheduler selects and the job that leaves the queue. -/
namespace Soar.Computing
open Soar.Library

/-- In a run in which no overflow moves the front between the end of `gettime` and the end of the
`get` that follows, and no `get` skips data without the shape, every job that is dropped or run is
the one whose timestamp the scheduler has stored. -/
theorem jobs_identified {τ : Type} (q : CrossQueue τ) (items : Nat → Bytes × τ)
    (hclean : ∀ n, SentinelFree (items n).1) (hkey : 0 < q.frontKeys) (turns : List JobTurn)
    (hkept : AlongRun (JobSystem.step q items) (fun w turn => w.kept q turn) q.createJobs turns) :
    (JobSystem.run q items turns).Identified items :=
  (AlongRun.inv (fun _ _ hinv hturn => hinv.step hclean hkey hturn) (JobInv.create q items) hkept).identified

/-- A put into a ring with room, and an iteration that ends with the `get` of its choice. -/
def putAndServe (choice : Choice) : List JobTurn :=
  List.replicate 9 .producer ++ List.replicate 25 (.consumer choice)

/-- Two jobs, of which the first is dropped and the second runs. -/
theorem jobs_identified_twoJobs :
    (JobSystem.run (twoSlots 1) payloads (putAndServe .drop ++ putAndServe (.run 1))).Identified payloads ∧
      (JobSystem.run (twoSlots 1) payloads (putAndServe .drop ++ putAndServe (.run 1))).jobs.jobs =
        [⟨.scheduler, some 0, [0], 0⟩, ⟨.model 1, some 1, [1], 1⟩] := by
  refine ⟨jobs_identified (twoSlots 1) payloads (fun n => ?_) Nat.one_pos _ (by decide +kernel), by decide +kernel⟩
  unfold payloads
  split_ifs <;> exact sentinelFree_of_length (by decide)

/-- Put 0, the selection of its timestamp, put 1, which overflows, and the rest of the iteration. -/
def putAfterSelection (choice : Choice) : List JobTurn :=
  List.replicate 9 .producer ++ List.replicate 13 (.consumer choice) ++ List.replicate 10 .producer ++
    List.replicate 12 (.consumer choice)

private theorem not_identified_of_jobs {w : JobSystem (Fin (2 ^ 53))} {agent : Agent}
    (h : w.jobs.jobs = [⟨agent, some 0, [1], 1⟩]) : ¬ w.Identified payloads := by
  intro hidentified
  obtain ⟨n, -, hn, hstart⟩ := hidentified ⟨agent, some 0, [1], 1⟩ (h ▸ List.mem_singleton_self _)
  rw [← hn] at hstart
  have htimes : (0 : Fin (2 ^ 53)) = 1 := Option.some.inj hstart
  exact absurd htimes (by decide)

/-- The job that is dropped as too late, or run, is not the one that was selected. -/
theorem not_jobs_identified_overflow :
    (∀ n, SentinelFree (payloads n).1 ∧ (twoSlots 1).Shaped (payloads n).1) ∧
    ¬ (JobSystem.run (twoSlots 1) payloads (putAfterSelection .drop)).Identified payloads ∧
    ¬ (JobSystem.run (twoSlots 1) payloads (putAfterSelection (.run 0))).Identified payloads := by
  have hdrop : (JobSystem.run (twoSlots 1) payloads (putAfterSelection .drop)).jobs.jobs =
      [⟨.scheduler, some 0, [1], 1⟩] := by
    decide +kernel
  have hrun : (JobSystem.run (twoSlots 1) payloads (putAfterSelection (.run 0))).jobs.jobs =
      [⟨.model 0, some 0, [1], 1⟩] := by
    decide +kernel
  refine ⟨fun n => ?_, not_identified_of_jobs hdrop, not_identified_of_jobs hrun⟩
  unfold payloads
  split_ifs
  · exact ⟨sentinelFree_of_length (by decide), rfl⟩
  · exact ⟨sentinelFree_of_length (by decide), rfl⟩

end Soar.Computing
