import Soar.Scheduler.DemoRun

/-! The order in which the simulation of `local_demo.py` takes the data, and the deadlines that it meets. -/
namespace Soar.Scheduler.LocalDemo
open Soar.Library

/-- The data are listed in order of their deadlines. -/
def Task.InDeadlineOrder (t : Task) : Prop := t.queue.Pairwise fun d e => d.deadline ≤ e.deadline

theorem earliest_le {data : List TaskData} {d : TaskData} (hd : d ∈ data) : earliest data ≤ d.deadline := by
  induction data with
  | nil => cases hd
  | cons e data ih =>
    rcases List.mem_cons.mp hd with rfl | hrest
    · exact min_le_left _ _
    · exact (min_le_right _ _).trans (ih hrest)

theorem le_earliest {data : List TaskData} {x : Time} (h : ∀ d ∈ data, x ≤ d.deadline) : x ≤ earliest data := by
  induction data with
  | nil => exact le_top
  | cons e data ih =>
    apply le_min
    · exact h e List.mem_cons_self
    · exact ih fun d hd => h d (List.mem_cons_of_mem e hd)

/-- Data of a period of at least two milliseconds come in order, whatever their shifts. -/
theorem TaskConfig.task_inOrder {maxSimTime : Int} {config : TaskConfig} {random : Nat → ℚ} {t : Task}
    (h : config.task maxSimTime random = some t) (hperiod : 2 ≤ config.period)
    (hrandom : ∀ k, 0 ≤ random k ∧ random k < 1) : t.InOrder ∧ t.InDeadlineOrder := by
  obtain ⟨times, htimes, rfl⟩ := Option.map_eq_some_iff.mp h
  have hsteps {i j : Nat} (hij : i < j) :
      (config.startShift + config.period * i : ℚ) + 2 ≤ config.startShift + config.period * j := by
    have hij' : (i + 1 : ℚ) ≤ j := by exact_mod_cast hij
    have hperiod' : (2 : ℚ) ≤ config.period := by exact_mod_cast hperiod
    nlinarith
  rw [range, if_neg (by omega)] at htimes
  obtain rfl := Option.some.inj htimes
  constructor
  · apply List.pairwise_iff_getElem.mpr
    intro i j hi hj hij
    have := hsteps hij
    simp only [List.getElem_mapIdx, List.getElem_map, List.getElem_range, Int.cast_add, Int.cast_mul, Int.cast_natCast]
    linarith [hrandom i, hrandom j]
  · apply List.pairwise_iff_getElem.mpr
    intro i j hi hj hij
    have := hsteps hij
    simp only [List.getElem_mapIdx, List.getElem_map, List.getElem_range, Int.cast_add, Int.cast_mul, Int.cast_natCast]
    linarith

/-- A pass takes the datum of the least deadline of all that exist, in every state that a run from the configuration
of a node reaches. -/
theorem earliest_deadline_first {maxSimTime : Int} {configs : List TaskConfig} {random : Nat → Nat → ℚ}
    {tasks : List Task} (htasks : tasksOf maxSimTime configs random = some tasks)
    (hperiod : ∀ config ∈ configs, 2 ≤ config.period) (hrandom : ∀ i k, 0 ≤ random i k ∧ random i k < 1)
    {modelVariance : Bool} {clocks : List (ℚ × ℚ)} {s : Simulation}
    (hrun : Simulation.run modelVariance { tasks := tasks } clocks = some s) {now : ℚ} {a : Action} {i : Nat}
    (haction : s.action modelVariance now = some (a, i)) {data : TaskData} (hdata : a.data? = some data) :
    data.createTime ≤ now ∧ (∃ t, s.tasks[i]? = some t ∧ data ∈ t.queue) ∧
      ∀ t ∈ s.tasks, ∀ d ∈ t.queue, d.createTime ≤ now → data.deadline ≤ d.deadline := by
  have hfollows := (Simulation.follows_start tasks).run hrun
  have horder : ∀ t ∈ s.tasks, t.InOrder ∧ t.InDeadlineOrder := by
    intro t ht
    obtain ⟨t₀, ht₀, hsuffix⟩ := hfollows.left.exists_start ht
    obtain ⟨⟨config, j⟩, hmem, htask⟩ := exists_of_mem_mapM htasks ht₀
    obtain ⟨hcreated, hdeadline⟩ := TaskConfig.task_inOrder htask
      (hperiod config (List.fst_mem_of_mem_zipIdx hmem)) (hrandom j)
    exact ⟨hcreated.sublist hsuffix.sublist, hdeadline.sublist hsuffix.sublist⟩
  obtain ⟨t, ht, hleast, hcases⟩ := Simulation.action_spec haction
  have hmem := List.mem_of_getElem? ht
  have hfront : t.front = some data ∧ (t.setTime now).dataQueue ≠ [] := by
    rcases hcases with ⟨rfl, -⟩ | ⟨data', hfront, hpending, hact⟩
    · cases hdata
    · have hsame : a.data? = some data' := by
        rcases hact with ⟨-, next, rfl⟩ | ⟨-, rfl⟩
        · exact handle_data? _ _ _ _
        · rfl
      rw [Option.some.inj (hdata.symm.trans hsame)]
      exact ⟨hfront, hpending⟩
  obtain ⟨d, rest, hqueue⟩ := List.exists_cons_of_ne_nil hfront.2
  have hinOrder : (t.setTime now).InOrder := (horder t hmem).1
  have hd : d = data := Option.some.inj ((front_of_dataQueue hinOrder hqueue).symm.trans hfront.1)
  rw [hd] at hqueue
  have hexists : data ∈ (t.setTime now).dataQueue := hqueue ▸ List.mem_cons_self
  obtain ⟨hin, hcreated⟩ := List.mem_filter.mp hexists
  refine ⟨of_decide_eq_true hcreated, ⟨t, ht, hin⟩, ?_⟩
  intro u hu e he hcreate
  have hpending : e ∈ (u.setTime now).dataQueue := List.mem_filter.mpr ⟨he, decide_eq_true hcreate⟩
  have hsorted : (data :: rest).Pairwise fun d e => d.deadline ≤ e.deadline := by
    rw [← hqueue]
    exact (horder t hmem).2.sublist List.filter_sublist
  have hmost : (data.deadline : Time) ≤ (t.setTime now).mostUrgentTime := by
    rw [Task.mostUrgentTime, hqueue]
    apply le_earliest
    intro d hd
    rcases List.mem_cons.mp hd with rfl | hlater
    · exact le_rfl
    · exact WithTop.coe_le_coe.mpr (List.rel_of_pairwise_cons hsorted hlater)
  exact WithTop.coe_le_coe.mp ((hmost.trans (hleast u hu)).trans (earliest_le hpending))

def lidarConfig : TaskConfig := ⟨"lidar", 0, 10, 100, lidarData.runningTime⟩
def thermalConfig : TaskConfig := ⟨"thermal", 3, 10, 70, thermalData.runningTime⟩

def configuredLidar : List TaskData :=
  [⟨"lidar0", -1, 100, lidarConfig.execTime⟩, ⟨"lidar10", 9, 110, lidarConfig.execTime⟩]
def firstThermal : TaskData := ⟨"thermal3", 2, 73, thermalConfig.execTime⟩
def secondThermal : TaskData := ⟨"thermal13", 12, 83, thermalConfig.execTime⟩

def configuredTasks : List Task :=
  [{ name := "lidar", queue := configuredLidar }, { name := "thermal", queue := [firstThermal, secondThermal] }]

/-- The first pass, at 5 ms, has taken the thermal task's first datum. -/
def afterFirst : Simulation where
  tasks := [{ name := "lidar", queue := configuredLidar, currentTime := 5 },
    { name := "thermal", queue := [secondThermal], currentTime := 5 }]
  dataSuccess := 1

/-- The second pass takes the second thermal datum. -/
theorem earliest_deadline_first_example :
    Simulation.run true { tasks := configuredTasks } [(5, 35)] = some afterFirst ∧
      afterFirst.action true 40 = some (.run "thermal" secondThermal .Small, 1) ∧
      ∀ t ∈ afterFirst.tasks, ∀ d ∈ t.queue, d.createTime ≤ 40 → secondThermal.deadline ≤ d.deadline := by
  have htasks : tasksOf 20 [lidarConfig, thermalConfig] (fun _ _ => 0) = some configuredTasks := by
    decide +kernel
  have hrun : Simulation.run true { tasks := configuredTasks } [(5, 35)] = some afterFirst := by
    decide +kernel
  have haction : afterFirst.action true 40 = some (.run "thermal" secondThermal .Small, 1) := by
    decide +kernel
  have hperiod : ∀ config ∈ [lidarConfig, thermalConfig], 2 ≤ config.period := by
    intro config hconfig
    rcases List.mem_pair.mp hconfig with rfl | rfl
    · decide
    · decide
  obtain ⟨-, -, hleast⟩ := @earliest_deadline_first 20 [lidarConfig, thermalConfig] (fun _ _ => 0) _ htasks hperiod
    (fun _ _ => ⟨le_rfl, one_pos⟩) true [(5, 35)] _ hrun 40 _ 1 haction _ rfl
  exact ⟨hrun, haction, hleast⟩

/-! ### Deadlines that are met -/

/-- The running time with its margin of what a pass starts. -/
def Action.allowed : Action → Option ℚ
  | .run _ data size => some (data.safeTime size)
  | _ => none

/-- A run that the pass starts takes no longer than its running time with the margin. -/
def Simulation.Timely (s : Simulation) (clock : ℚ × ℚ) : Prop :=
  ∀ p ∈ s.action true clock.1, ∀ time ∈ p.1.allowed, clock.2 ≤ clock.1 + time

instance (s : Simulation) (clock : ℚ × ℚ) : Decidable (s.Timely clock) :=
  inferInstanceAs (Decidable (∀ p ∈ s.action true clock.1, ∀ time ∈ p.1.allowed, clock.2 ≤ clock.1 + time))

/-- What is started ends in time. -/
theorem handle_run_safe {now : ℚ} {task task' : String} {data data' : TaskData} {next : Option TaskData}
    {size : ModelSize} (h : handle now task data next = .run task' data' size) :
    now + data'.safeTime size ≤ data'.deadline := by
  unfold handle at h
  split_ifs at h with hsmall hfull
  · cases h
    exact not_lt.mp hsmall
  · cases h
    cases sizeBefore now data next with
    | Full => exact not_lt.mp hfull
    | Small => exact not_lt.mp hsmall

/-- With `model_variance` and timely runs no datum fails. -/
theorem timely_dataFail_eq_zero (tasks : List Task) (clocks : List (ℚ × ℚ))
    (htimely : AlongRun (Simulation.turn true) (fun o clock => ∀ s ∈ o, s.Timely clock)
      (some { tasks := tasks }) clocks) :
    ∀ s ∈ Simulation.run true { tasks := tasks } clocks, s.dataFail = 0 := by
  have hturn (o : Option Simulation) (clock : ℚ × ℚ) (ho : ∀ s ∈ o, s.dataFail = 0) (ht : ∀ s ∈ o, s.Timely clock) :
      ∀ s ∈ Simulation.turn true o clock, s.dataFail = 0 := by
    intro s' hs'
    obtain ⟨s, hs, hstep⟩ := Option.bind_eq_some_iff.mp hs'
    have hfail := ho s hs
    rcases Simulation.step_cases hstep with ⟨-, rfl⟩ | ⟨-, -, rfl⟩ | ⟨a, i, t, data, haction, hdata, -, -, rfl⟩
    · exact hfail
    · exact hfail
    · obtain ⟨t', -, -, hcases⟩ := Simulation.action_spec haction
      cases a with
      | wait => cases hdata
      | skip _ _ => exact hfail
      | run task data' size =>
        have hsafe : clock.1 + data'.safeTime size ≤ data'.deadline := by
          rcases hcases with ⟨hwait, -⟩ | ⟨_, -, -, ⟨-, next, hact⟩ | ⟨hmv, -⟩⟩
          · cases hwait
          · exact handle_run_safe hact.symm
          · cases hmv
        have hend := ht s hs _ haction _ rfl
        rw [Simulation.count, if_neg (hend.trans hsafe).not_gt]
        exact hfail
  apply htimely.inv hturn
  intro s hs
  obtain rfl := Option.some.inj hs
  rfl

/-- Two data that are both run in time. -/
theorem timely_dataFail_eq_zero_lidarThermal :
    ∃ s, Simulation.run true { tasks := [lidar, thermal] } [(12, 42), (42, 66)] = some s ∧ s.dataSuccess = 2 ∧
      s.dataFail = 0 := by
  have hrun : Simulation.run true { tasks := [lidar, thermal] } [(12, 42), (42, 66)] = some
      { tasks := [{ lidar.setTime 42 with queue := [] }, { thermal.setTime 42 with queue := [] }], dataSuccess :=
        2 } := by
    decide +kernel
  have hfail := timely_dataFail_eq_zero [lidar, thermal] [(12, 42), (42, 66)] (by decide +kernel) _ hrun
  exact ⟨_, hrun, rfl, hfail⟩

end Soar.Scheduler.LocalDemo
