import Mathlib.Algebra.Order.Ring.Rat
import Mathlib.Data.List.Induction
import Soar.Dispatcher.Dictionary

/-! The reports of the local scheduler: `write_to_results`, its records and its counts of missed deadlines. -/
namespace Soar.Scheduler
open Soar.Dispatcher (updateKey lookup_updateKey)

/-- A record in `RESULTS`. -/
structure Record where
  appid : Int
  recvTime : ℚ
  endTime : ℚ
  selectMv : Int
  missing : Int
deriving DecidableEq

/-- One call of `write_to_results`; every caller passes `ddl`. -/
structure Report where
  appid : Int
  startTime : ℚ
  recvTime : ℚ
  endTime : ℚ
  selectMv : Int
  ddl : ℚ
  missing : Int := 1

def Report.data (c : Report) : Record := ⟨c.appid, c.recvTime, c.endTime, c.selectMv, c.missing⟩

/-- `MISSING_RATE`: of each app, the jobs and the missed ones among them. -/
abbrev MissingRate := List (Int × (Nat × Nat))

/-- `RESULTS`, `COUNT` and `MISSING_RATE`, and what has been put on `miss_queue`. -/
structure Results where
  results : List (ℚ × List Record) := []
  count : Nat := 0
  missingRate : MissingRate := []
  missQueue : List MissingRate := []

/-- The test that counts a job as missed. -/
def Report.Missed (c : Report) : Prop := c.missing = 2 ∨ c.ddl < c.endTime - c.startTime

instance (c : Report) : Decidable c.Missed := inferInstanceAs (Decidable (_ ∨ _))

/-- The entry of the app in `MISSING_RATE` with the job of the call. -/
def tally (rate : MissingRate) (c : Report) : MissingRate :=
  let rate := updateKey (0, 0) (fun n => (n.1 + 1, n.2)) c.appid rate
  if c.Missed then updateKey (0, 0) (fun n => (n.1, n.2 + 1)) c.appid rate else rate

/-- `write_to_results`, without the files it dumps. -/
def writeToResults (s : Results) (c : Report) : Results :=
  let rate := tally s.missingRate c
  let s' := { s with
    results := updateKey [] (fun _ => [c.data]) c.startTime s.results
    count := s.count + 1
    missingRate := rate }
  if s'.count % 500 = 0 then
    { s' with
      missQueue := s.missQueue ++ [rate]
      missingRate := updateKey (0, 0) (fun _ => (0, 0)) c.appid rate }
  else s'

/-- The records of an app under a job timestamp. -/
def Results.records (s : Results) (appid : Int) (startTime : ℚ) : List Record :=
  ((s.results.lookup startTime).getD []).filter (·.appid = appid)

/-- There is one record for the app and the timestamp of the call, with its times and its variant. -/
def Results.Recorded (s : Results) (c : Report) : Prop :=
  ∃ r, s.records c.appid c.startTime = [r] ∧
    r.recvTime = c.recvTime ∧ r.endTime = c.endTime ∧ r.selectMv = c.selectMv

/-- Two calls that leave the same record behind. -/
def Report.Agrees (c c' : Report) : Prop :=
  c.appid = c'.appid ∧ c.recvTime = c'.recvTime ∧ c.endTime = c'.endTime ∧ c.selectMv = c'.selectMv

/-- The last call about a timestamp. -/
def lastReport (calls : List Report) (startTime : ℚ) : Option Report :=
  calls.reverse.find? (·.startTime = startTime)

theorem results_writeToResults (s : Results) (c : Report) :
    (writeToResults s c).results = updateKey [] (fun _ => [c.data]) c.startTime s.results := by
  unfold writeToResults
  dsimp only
  split_ifs <;> rfl

theorem lastReport_concat (calls : List Report) (c : Report) (startTime : ℚ) :
    lastReport (calls ++ [c]) startTime =
      if c.startTime = startTime then some c else lastReport calls startTime := by
  unfold lastReport
  rw [List.reverse_append, List.reverse_singleton, List.singleton_append, List.find?_cons]
  split <;> simp_all

/-- The last call about a timestamp decides what is under it. -/
theorem lookup_results (s : Results) (calls : List Report) (startTime : ℚ) :
    (calls.foldl writeToResults s).results.lookup startTime =
      ((lastReport calls startTime).map fun c => [c.data]).or (s.results.lookup startTime) := by
  induction calls using List.reverseRecOn with
  | nil => rfl
  | append_singleton calls c ih =>
    rw [List.foldl_append, List.foldl_cons, List.foldl_nil, results_writeToResults, lookup_updateKey,
      lastReport_concat]
    by_cases htime : startTime = c.startTime
    · rw [if_pos htime, if_pos htime.symm]
      rfl
    · rw [if_neg htime, if_neg (Ne.symm htime), ih]

/-- Every start time that was reported has a last report. -/
theorem exists_lastReport {calls : List Report} {c : Report} (hc : c ∈ calls) :
    ∃ l ∈ calls, l.startTime = c.startTime ∧ lastReport calls c.startTime = some l := by
  have hsome : (lastReport calls c.startTime).isSome :=
    List.find?_isSome.mpr ⟨c, List.mem_reverse.mpr hc, decide_eq_true rfl⟩
  obtain ⟨l, hl⟩ := Option.isSome_iff_exists.mp hsome
  have hfind : calls.reverse.find? (fun l => l.startTime = c.startTime) = some l := hl
  have htime := List.find?_some hfind
  exact ⟨l, List.mem_reverse.mp (List.mem_of_find?_eq_some hl), of_decide_eq_true htime, hl⟩

/-- The record of a call is still there if the last call about its timestamp leaves the same one. -/
theorem recorded_iff_agrees {s : Results} {calls : List Report} {c l : Report}
    (hl : lastReport calls c.startTime = some l) : (calls.foldl writeToResults s).Recorded c ↔ l.Agrees c := by
  have hrecords : (calls.foldl writeToResults s).records c.appid c.startTime =
      if l.appid = c.appid then [l.data] else [] := by
    unfold Results.records
    rw [lookup_results, hl]
    simp [List.filter_cons, Report.data]
  unfold Results.Recorded Report.Agrees
  rw [hrecords]
  split_ifs with happ
  · constructor
    · rintro ⟨r, hr, hagrees⟩
      obtain rfl := List.singleton_inj.mp hr
      exact ⟨happ, hagrees⟩
    · exact fun h => ⟨l.data, rfl, h.2⟩
  · refine iff_of_false ?_ fun h => happ h.1
    rintro ⟨r, hnone, -⟩
    exact hnone

/-- Every call keeps its record exactly if the calls about one timestamp are of one app, with the same times and
the same variant. -/
theorem recorded_iff (s : Results) (calls : List Report) :
    (∀ c ∈ calls, (calls.foldl writeToResults s).Recorded c) ↔
      ∀ c ∈ calls, ∀ c' ∈ calls, c.startTime = c'.startTime → c.Agrees c' := by
  constructor
  · intro h c hc c' hc' htime
    obtain ⟨l, -, -, hl⟩ := exists_lastReport hc
    have hlast := (recorded_iff_agrees hl).mp (h c hc)
    have hlast' := (recorded_iff_agrees (htime ▸ hl)).mp (h c' hc')
    exact ⟨hlast.1.symm.trans hlast'.1, hlast.2.1.symm.trans hlast'.2.1, hlast.2.2.1.symm.trans hlast'.2.2.1,
      hlast.2.2.2.symm.trans hlast'.2.2.2⟩
  · intro h c hc
    obtain ⟨l, hmem, htime, hl⟩ := exists_lastReport hc
    exact (recorded_iff_agrees hl).mpr (h l hmem c hc htime)

/-- A frame of 10 s that the apps 1 and 2 have both processed. -/
def sharedFrame : List Report := [⟨1, 10, 101 / 10, 102 / 10, 0, 1, 1⟩, ⟨2, 10, 101 / 10, 103 / 10, 0, 1, 1⟩]

/-- Two apps have processed one frame, and the record of the first is gone. -/
theorem not_recorded_sharedFrame :
    ¬∀ (calls : List Report), ∀ c ∈ calls, (calls.foldl writeToResults {}).Recorded c := by
  intro h
  have hlast : lastReport sharedFrame 10 = some ⟨2, 10, 101 / 10, 103 / 10, 0, 1, 1⟩ := rfl
  have hagrees := (recorded_iff_agrees hlast).mp (h sharedFrame ⟨1, 10, 101 / 10, 102 / 10, 0, 1, 1⟩
      (List.mem_cons_self ..))
  exact absurd hagrees.1 (by decide)

end Soar.Scheduler
