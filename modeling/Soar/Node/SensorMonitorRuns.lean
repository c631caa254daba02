import Soar.Node.SensorMonitor
import Soar.Node.DeploymentAtomicity
import Soar.Node.DeployedApps

/-! In whatever order the two monitors take turns, the sensors that run are those the files say, until a file is
written behind the back of `ros2_monitor.py`. -/
namespace Soar.Node
open Soar.Computing Soar.Library

section Words

variable {n : Nat} {a b : List Char} {cmd : Command}

theorem lastWords_append_pair (front : Command) (a b : List Char) : lastWords 2 (front ++ [a, b]) = [a, b] := by
  unfold lastWords
  rw [List.length_append]
  exact List.drop_left

theorem lastWords_append_singleton (front : Command) (a : List Char) : lastWords 1 (front ++ [a]) = [a] := by
  unfold lastWords
  rw [List.length_append]
  exact List.drop_left

/-- The last word is one of the last two. -/
theorem lastWords_one (h : lastWords 2 cmd = [a, b]) : lastWords 1 cmd = [b] := by
  have hcmd : cmd = cmd.take (cmd.length - 2) ++ [a] ++ [b] := by
    conv_lhs => rw [← List.take_append_drop (cmd.length - 2) cmd]
    unfold lastWords at h
    rw [h, List.append_assoc]
    rfl
  rw [hcmd]
  exact lastWords_append_singleton _ b

theorem configPath_injective {key key' : Nat} (h : configPath key = configPath key') : key = key' := by
  have hdigits : Nat.toDigits 10 key = Nat.toDigits 10 key' := List.append_cancel_left (List.append_cancel_right h)
  calc key = Nat.ofDigitChars 10 (Nat.toDigits 10 key) 0 :=
        (Nat.ofDigitChars_toDigits (Nat.one_lt_succ_succ 8) (Nat.le_refl _)).symm
    _ = Nat.ofDigitChars 10 (Nat.toDigits 10 key') 0 := by rw [hdigits]
    _ = key' := Nat.ofDigitChars_toDigits (Nat.one_lt_succ_succ 8) (Nat.le_refl _)

theorem lastWords_listener (nodename : Nat → List Char) (key : Nat) :
    lastWords 2 (listener nodename key) = [['-', 'p'], configPath key] := by
  rw [listener, List.append_cons]
  exact lastWords_append_pair _ _ _

/-- No digit stands at the start of a path. -/
theorem configPath_ne_toDigits (key app : Nat) : configPath key ≠ Nat.toDigits 10 app := by
  intro h
  have hmem : 'c' ∈ Nat.toDigits 10 app := h ▸ List.mem_cons_self ..
  exact absurd (isDigit_of_mem hmem) (by decide)

theorem configPath_ne_control (key : Nat) : [configPath key] ≠ lastWords 1 control := by
  intro h
  rw [control, lastWords_append_singleton] at h
  have hhead : some 'c' = some '/' := congrArg List.head? (List.singleton_inj.mp h)
  exact absurd hhead (by decide)

end Words

namespace NodeState

variable {shell : Shell} {nodename : Nat → List Char} {w w' : NodeState} {key key' : Nat}

/-- The processes that `find_pid_by_cmdline` finds for the sensor. -/
def listeners (nodename : Nat → List Char) (w : NodeState) (key : Nat) : List Process :=
  w.processes.filter (matchesLast 2 (listener nodename key))

/-- The queue keys in the sensor's file. -/
def queue (w : NodeState) (key : Nat) : Option (List Nat) := (w.dir.ini key).bind fun config => evalList config.queueKey

/-- The sensor runs if its file has queue keys, and does what its file says. -/
structure Current (nodename : Nat → List Char) (w : NodeState) (key : Nat) : Prop where
  running : ∀ queue, w.queue key = some queue → (w.listeners nodename key = [] ↔ queue = [])
  config : ∀ p ∈ w.listeners nodename key, p.config = none ∨ p.config = w.dir.ini key

/-- What holds after every turn: at each stage of `run`, what it has done to the sensor. -/
structure Inv (nodename : Nat → List Char) (w : NodeState) : Prop where
  current : ∀ key, w.dir.lock key = false → w.monitor.handled ≠ some key → w.overtaken key = false →
    w.Current nodename key
  killed : ∀ key rest running, w.monitor = .killed key rest running → w.listeners nodename key = []
  start : ∀ key rest, w.monitor = .start key rest → w.listeners nodename key = [] ∧
    (w.overtaken key = false → ∀ queue, w.queue key = some queue → queue ≠ [])
  rename : ∀ key rest running, w.monitor = .rename key rest running → w.overtaken key = false → w.Current nodename key

section Listeners

theorem matchesLast_iff {n : Nat} {cmd : Command} {p : Process} :
    matchesLast n cmd p = true ↔ lastWords n p.cmdline = lastWords n cmd := decide_eq_true_iff

theorem mem_listeners {p : Process} :
    p ∈ w.listeners nodename key ↔ p ∈ w.processes ∧ lastWords 2 p.cmdline = [['-', 'p'], configPath key] := by
  unfold listeners
  rw [List.mem_filter, matchesLast_iff, lastWords_listener]

/-- No process of the sensor is left after the kill. -/
theorem listeners_kill_self (w : NodeState) (key : Nat) :
    (w.kill 2 (listener nodename key)).listeners nodename key = [] := by
  apply List.filter_eq_nil_iff.mpr
  intro p hp hmatches
  have hnot := (List.mem_filter.mp hp).2
  rw [hmatches] at hnot
  exact absurd hnot Bool.false_ne_true

/-- Killing processes whose last words are no sensor's. -/
theorem listeners_kill {n : Nat} {cmd : Command} (h : ∀ p, matchesLast n cmd p = true →
    lastWords 2 p.cmdline ≠ [['-', 'p'], configPath key]) :
    (w.kill n cmd).listeners nodename key = w.listeners nodename key := by
  unfold kill listeners
  dsimp only
  rw [List.filter_filter]
  apply List.filter_congr
  intro p hp
  cases hkill : matchesLast n cmd p with
  | false => rw [Bool.not_false, Bool.and_true]
  | true =>
    have hnot : matchesLast 2 (listener nodename key) p = false := by
      rw [← Bool.not_eq_true, matchesLast_iff, lastWords_listener]
      exact h p hkill
    rw [hnot, Bool.false_and]

theorem listeners_kill_one {cmd : Command} (h : [configPath key] ≠ lastWords 1 cmd) :
    (w.kill 1 cmd).listeners nodename key = w.listeners nodename key :=
  listeners_kill fun _ hp hlast => h ((lastWords_one hlast).symm.trans (matchesLast_iff.mp hp))

theorem listeners_kill_of_ne (h : key' ≠ key) :
    (w.kill 2 (listener nodename key)).listeners nodename key' = w.listeners nodename key' :=
  listeners_kill fun p hp hlast => by
    rw [matchesLast_iff, lastWords_listener, hlast] at hp
    exact h (configPath_injective (List.cons.inj (List.cons.inj hp).2).1)

/-- Starting a program that is no sensor's. -/
theorem listeners_system_of_ne {cmd : Command} (h : lastWords 2 cmd ≠ [['-', 'p'], configPath key]) :
    (w.system shell cmd).listeners nodename key = w.listeners nodename key := by
  unfold system listeners
  dsimp only
  rw [List.filter_append]
  apply List.append_right_eq_self.mpr
  apply List.filter_eq_nil_iff.mpr
  intro p hp hmatches
  obtain ⟨c, hc, rfl⟩ := List.mem_map.mp hp
  rw [matchesLast_iff, lastWords_listener] at hmatches
  exact h ((shell.last cmd c hc).symm.trans hmatches)

/-- A program that is killed and started again, and is no sensor's. -/
theorem listeners_restart {cmd : Command} (h : [configPath key] ≠ lastWords 1 cmd) :
    ((w.kill 1 cmd).system shell cmd).listeners nodename key = w.listeners nodename key :=
  (listeners_system_of_ne fun hlast => h (lastWords_one hlast).symm).trans (listeners_kill_one h)

/-- The command starts the process of its sensor. -/
theorem listeners_system_self (w : NodeState) (key : Nat) :
    (w.system shell (listener nodename key)).listeners nodename key =
      w.listeners nodename key ++ (shell.spawn (listener nodename key)).map fun c => ⟨c, none⟩ := by
  unfold system listeners
  dsimp only
  rw [List.filter_append]
  congr 1
  apply List.filter_eq_self.mpr
  intro p hp
  obtain ⟨c, hc, rfl⟩ := List.mem_map.mp hp
  exact matchesLast_iff.mpr (shell.last _ c hc)

/-- A sensor that reads its file keeps its command line. -/
theorem mem_listeners_readConfig {p : Process} {i : Nat} (hp : p ∈ (w.readConfig i key').listeners nodename key) :
    ∃ p₀ ∈ w.listeners nodename key, p = p₀ ∨ p.config = w.dir.ini key := by
  obtain ⟨hmem, hlast⟩ := mem_listeners.mp hp
  obtain ⟨j, hj⟩ := List.mem_iff_getElem?.mp hmem
  change (w.processes.modify i _)[j]? = some p at hj
  rw [List.getElem?_modify] at hj
  obtain ⟨p₀, hp₀, rfl⟩ := Option.map_eq_some_iff.mp hj
  have hmem₀ : p₀ ∈ w.processes := List.mem_of_getElem? hp₀
  split_ifs at hlast ⊢ with hij hread
  · refine ⟨p₀, mem_listeners.mpr ⟨hmem₀, hlast⟩, .inr ?_⟩
    have hkey := hread.1.symm.trans (lastWords_one hlast)
    rw [configPath_injective (List.singleton_inj.mp hkey)]
  · exact ⟨p₀, mem_listeners.mpr ⟨hmem₀, hlast⟩, .inl rfl⟩
  · exact ⟨p₀, mem_listeners.mpr ⟨hmem₀, hlast⟩, .inl rfl⟩

theorem listeners_eq_nil_iff : w.listeners nodename key = [] ↔
    ∀ cmd ∈ w.processes.map Process.cmdline, lastWords 2 cmd ≠ [['-', 'p'], configPath key] := by
  unfold listeners
  rw [List.filter_eq_nil_iff, List.forall_mem_map]
  refine forall₂_congr fun p _ => ?_
  rw [matchesLast_iff, lastWords_listener]

theorem readConfig_cmdlines (w : NodeState) (i key : Nat) :
    (w.readConfig i key).processes.map Process.cmdline = w.processes.map Process.cmdline := by
  apply List.ext_getElem?
  intro j
  unfold readConfig
  rw [List.getElem?_map, List.getElem?_map, List.getElem?_modify, Option.map_eq_map, Option.map_map]
  congr 1
  funext p
  dsimp only [Function.comp_apply]
  split_ifs <;> rfl

end Listeners

section Steps

theorem Current.of_eq (h : w.Current nodename key) (hlisteners : w'.listeners nodename key = w.listeners nodename key)
    (hini : w'.dir.ini key = w.dir.ini key) : w'.Current nodename key := by
  constructor
  · intro queue hqueue
    rw [hlisteners]
    apply h.running
    rw [← hqueue, NodeState.queue, NodeState.queue, hini]
  · rw [hlisteners, hini]
    exact h.config

theorem Current.readConfig (h : w.Current nodename key) (i : Nat) : (w.readConfig i key').Current nodename key := by
  constructor
  · intro queue hqueue
    rw [listeners_eq_nil_iff, readConfig_cmdlines, ← listeners_eq_nil_iff]
    exact h.running queue hqueue
  · intro p hp
    obtain ⟨p₀, hp₀, rfl | hconfig⟩ := mem_listeners_readConfig hp
    · exact h.config p hp₀
    · exact .inr hconfig

/-- A turn that changes files only: a file that is written has its sensor locked, or is too late. -/
theorem Inv.of_files (h : w.Inv nodename) (hprocesses : w'.processes = w.processes) (hmonitor : w'.monitor = w.monitor)
    (hdir : ∀ key, w'.dir.ini key = w.dir.ini key ∧ w'.overtaken key = w.overtaken key ∧
        (w'.dir.lock key = false → w.dir.lock key = false) ∨
      (w'.dir.lock key = false ∨ w.monitor.pastRead = some key → w'.overtaken key = true)) : w'.Inv nodename := by
  have hlisteners : ∀ key, w'.listeners nodename key = w.listeners nodename key := fun key => by
    unfold listeners
    rw [hprocesses]
  constructor
  · intro key hlock hhandled hovertaken
    rw [hmonitor] at hhandled
    obtain ⟨hini, heq, hlock'⟩ | hlate := hdir key
    · exact (h.current key (hlock' hlock) hhandled (heq ▸ hovertaken)).of_eq (hlisteners key) hini
    · exact absurd (hlate (.inl hlock)) (by rw [hovertaken]; exact Bool.false_ne_true)
  · intro key rest running hstage
    rw [hlisteners]
    exact h.killed key rest running (hmonitor ▸ hstage)
  · intro key rest hstage
    rw [hmonitor] at hstage
    refine ⟨by rw [hlisteners]; exact (h.start key rest hstage).1, fun hovertaken queue hqueue => ?_⟩
    obtain ⟨hini, heq, -⟩ | hlate := hdir key
    · refine (h.start key rest hstage).2 (heq ▸ hovertaken) queue ?_
      rw [← hqueue, NodeState.queue, NodeState.queue, hini]
    · exact absurd (hlate (.inr (by rw [hstage]; rfl))) (by rw [hovertaken]; exact Bool.false_ne_true)
  · intro key rest running hstage hovertaken
    rw [hmonitor] at hstage
    obtain ⟨hini, heq, -⟩ | hlate := hdir key
    · exact (h.rename key rest running hstage (heq ▸ hovertaken)).of_eq (hlisteners key) hini
    · exact absurd (hlate (.inr (by rw [hstage]; rfl))) (by rw [hovertaken]; exact Bool.false_ne_true)

theorem Inv.readConfig (h : w.Inv nodename) (i key : Nat) : (w.readConfig i key).Inv nodename where
  current key' hlock hhandled hovertaken := (h.current key' hlock hhandled hovertaken).readConfig i
  killed key' rest running hstage := by
    rw [listeners_eq_nil_iff, readConfig_cmdlines, ← listeners_eq_nil_iff]
    exact h.killed key' rest running hstage
  start key' rest hstage := by
    rw [listeners_eq_nil_iff, readConfig_cmdlines, ← listeners_eq_nil_iff]
    exact h.start key' rest hstage
  rename key' rest running hstage hovertaken := (h.rename key' rest running hstage hovertaken).readConfig i

theorem Inv.taskStep (h : w.Inv nodename) : w.taskStep.Inv nodename := by
  unfold NodeState.taskStep
  -- what `write2file` keeps in its variables is no sensor's
  have hstage : ∀ task, ({ w with task := task } : NodeState).Inv nodename := fun task =>
    h.of_files rfl rfl fun key => .inl ⟨rfl, rfl, id⟩
  split
  · exact h
  · exact hstage _
  · exact hstage _
  · split
    · exact hstage _
    · split_ifs
      · exact hstage _
      · refine h.of_files rfl rfl fun key => .inl ⟨?_, rfl, ?_⟩
        · exact congrFun (Directory.createUnlock_ini _ _) key
        · rw [Directory.createUnlock_lock]
          exact id
  · exact h.of_files rfl rfl fun key => .inl ⟨rfl, rfl, id⟩
  · next key queue rest htask =>
    split
    · exact hstage _
    · next dir hunlock =>
      have hrename : ∀ task, ({ w with dir := dir, task := task } : NodeState).Inv nodename := fun task => by
        unfold Directory.renameUnlock at hunlock
        split_ifs at hunlock
        obtain rfl := Option.some.inj hunlock
        refine h.of_files rfl rfl fun key' => .inl ⟨rfl, rfl, fun hlock => ?_⟩
        change Function.update w.dir.lock key true key' = false at hlock
        by_cases hkey : key' = key
        · rw [hkey, Function.update_self] at hlock
          exact absurd hlock.symm Bool.false_ne_true
        · rwa [Function.update_of_ne hkey] at hlock
      split
      · exact hrename _
      · exact hrename _
  · next key config rest htask =>
    refine h.of_files rfl rfl fun key' => ?_
    by_cases hkey : key' = key
    · subst hkey
      refine .inr fun hlate => ?_
      dsimp only
      rw [Function.update_self]
      obtain hlock | hpast := hlate
      · have hunlocked : w.dir.lock key' = false := hlock
        rw [hunlocked, Bool.not_false, Bool.or_true, Bool.true_or]
      · rw [decide_eq_true hpast, Bool.or_true]
    · refine .inl ⟨Function.update_of_ne hkey .., Function.update_of_ne hkey .., id⟩

/-- Between two sensors only the first part is left. -/
theorem Inv.of_current (hstage : w.monitor.handled = none ∨ ∃ key rest running, w.monitor = .locked key rest running)
    (hcurrent : ∀ key, w.dir.lock key = false → w.monitor.handled ≠ some key → w.overtaken key = false →
      w.Current nodename key) : w.Inv nodename := by
  refine ⟨hcurrent, fun key rest running heq => ?_, fun key rest heq => ?_, fun key rest running heq => ?_⟩ <;>
  · rw [heq] at hstage
    obtain hnone | ⟨_, _, _, hlocked⟩ := hstage
    · exact absurd hnone (Option.some_ne_none key)
    · cases hlocked

/-- A turn of the monitor between two sensors, that kills and starts none. -/
theorem Inv.between (h : w.Inv nodename) (hnone : w.monitor.handled = none)
    (hstage : w'.monitor.handled = none ∨ ∃ key rest running, w'.monitor = .locked key rest running)
    (hlisteners : ∀ key, w'.listeners nodename key = w.listeners nodename key) (hdir : w'.dir = w.dir)
    (hovertaken : w'.overtaken = w.overtaken) : w'.Inv nodename :=
  .of_current hstage fun key hlock _ hover => by
    rw [hdir] at hlock
    rw [hovertaken] at hover
    exact (h.current key hlock (by rw [hnone]; exact (Option.some_ne_none key).symm) hover).of_eq (hlisteners key)
      (by rw [hdir])

/-- The sensor that is handled aside, a turn of the monitor changes no sensor. -/
theorem Inv.current_of_ne (h : w.Inv nodename) (hhandled : w.monitor.handled = some key) (hne : key' ≠ key)
    (hlock : w.dir.lock key' = false) (hovertaken : w.overtaken key' = false) : w.Current nodename key' :=
  h.current key' hlock (fun heq => hne (Option.some.inj (hhandled.symm.trans heq)).symm) hovertaken

theorem Inv.kill (h : w.Inv nodename) {rest : List Nat} {running : Bool}
    (hstage : w.monitor = .locked key rest running) :
    ({ w.kill 2 (listener nodename key) with monitor := .killed key rest running } : NodeState).Inv nodename := by
  have hhandled : w.monitor.handled = some key := by rw [hstage]; rfl
  constructor
  · intro key' hlock hother hovertaken
    have hne : key' ≠ key := fun heq => hother (congrArg some heq.symm)
    exact (h.current_of_ne hhandled hne hlock hovertaken).of_eq (listeners_kill_of_ne hne) rfl
  · rintro _ _ _ ⟨⟩
    exact listeners_kill_self w key
  · rintro _ _ ⟨⟩
  · rintro _ _ _ ⟨⟩

theorem Inv.read (h : w.Inv nodename) {rest : List Nat} {running : Bool} (hstage : w.monitor = .killed key rest running)
    {queue : List Nat} (hqueue : w.queue key = some queue) :
    ({ w with
      monitor := if queue ≠ [] then .start key rest else .rename key rest running
      overtaken := Function.update w.overtaken key false } : NodeState).Inv nodename := by
  have hhandled : w.monitor.handled = some key := by rw [hstage]; rfl
  have hnil := h.killed key rest running hstage
  constructor
  · intro key' hlock hother hovertaken
    have hne : key' ≠ key := by
      rintro rfl
      dsimp only at hother
      split_ifs at hother <;> exact hother rfl
    change Function.update w.overtaken key false key' = false at hovertaken
    rw [Function.update_of_ne hne] at hovertaken
    exact (h.current_of_ne hhandled hne hlock hovertaken).of_eq rfl rfl
  · intro key' _ _ heq
    dsimp only at heq
    split_ifs at heq
  · intro key' _ heq
    dsimp only at heq
    split_ifs at heq with hne
    cases heq
    refine ⟨hnil, fun _ queue' hqueue' => ?_⟩
    rwa [Option.some.inj (hqueue'.symm.trans hqueue)]
  · intro key' _ _ heq _
    dsimp only at heq
    split_ifs at heq with hne
    cases heq
    refine ⟨fun queue' hqueue' => iff_of_true hnil ?_, fun p hp => ?_⟩
    · rw [Option.some.inj (hqueue'.symm.trans hqueue)]
      exact not_not.mp hne
    · exact absurd (hnil ▸ hp : p ∈ []) List.not_mem_nil

theorem Inv.system (h : w.Inv nodename) {rest : List Nat} (hstage : w.monitor = .start key rest) :
    ({ w.system shell (listener nodename key) with monitor := .rename key rest true } : NodeState).Inv nodename := by
  have hhandled : w.monitor.handled = some key := by rw [hstage]; rfl
  obtain ⟨hnil, hqueue⟩ := h.start key rest hstage
  constructor
  · intro key' hlock hother hovertaken
    have hne : key' ≠ key := fun heq => hother (congrArg some heq.symm)
    refine (h.current_of_ne hhandled hne hlock hovertaken).of_eq (listeners_system_of_ne fun heq => ?_) rfl
    rw [lastWords_listener] at heq
    exact hne (configPath_injective (List.cons.inj (List.cons.inj heq).2).1).symm
  · rintro _ _ _ ⟨⟩
  · rintro _ _ ⟨⟩
  · rintro _ _ _ ⟨⟩ hovertaken
    have hnew : NodeState.listeners nodename { w.system shell (listener nodename key) with
        monitor := .rename key rest true } key = (shell.spawn (listener nodename key)).map fun c => ⟨c, none⟩ := by
      change (w.system shell (listener nodename key)).listeners nodename key = _
      rw [listeners_system_self, hnil, List.nil_append]
    refine ⟨fun queue hsome => iff_of_false ?_ (hqueue hovertaken queue hsome), fun p hp => .inl ?_⟩
    · rw [hnew]
      exact fun hmap => shell.ne_nil _ (List.map_eq_nil_iff.mp hmap)
    · rw [hnew] at hp
      obtain ⟨c, -, rfl⟩ := List.mem_map.mp hp
      rfl

/-- A step of the monitor keeps the invariant. -/
theorem Inv.monitorStep (h : w.Inv nodename) (filenames : List Nat) :
    (w.monitorStep shell nodename filenames).Inv nodename := by
  unfold NodeState.monitorStep
  split
  · next hstage => exact h.between (by rw [hstage]; rfl) (.inl rfl) (fun _ => rfl) rfl rfl
  · next hstage => exact h.between (by rw [hstage]; rfl) (.inl rfl) (fun _ => rfl) rfl rfl
  · next hstage =>
    split <;> exact h.between (by rw [hstage]; rfl) (.inl rfl) (fun _ => rfl) rfl rfl
  · next key rest running hstage =>
    have hnone : w.monitor.handled = none := by rw [hstage]; rfl
    split_ifs
    · exact h.between hnone (.inr ⟨key, rest, running, rfl⟩) (fun _ => rfl) rfl rfl
    · exact h.between hnone (.inl rfl) (fun _ => rfl) rfl rfl
  · next key rest running hstage => exact h.kill hstage
  · next key rest running hstage =>
    split
    · next hqueue =>
      have hnil := h.killed key rest running hstage
      refine .of_current (.inl rfl) fun key' hlock _ hovertaken => ?_
      by_cases hkey : key' = key
      · subst hkey
        refine ⟨fun queue hsome => ?_, fun p hp => absurd (hnil ▸ hp : p ∈ []) List.not_mem_nil⟩
        cases hqueue.symm.trans hsome
      · exact (h.current_of_ne (by rw [hstage]; rfl) hkey hlock hovertaken).of_eq rfl rfl
    · next queue hqueue => exact h.read hstage hqueue
  · next key rest hstage => exact h.system hstage
  · next key rest running hstage =>
    have hrename : ∀ key', (key' ≠ key → w.dir.lock key' = false) → w.overtaken key' = false →
        w.Current nodename key' := fun key' hlock hovertaken => by
      by_cases hkey : key' = key
      · subst hkey
        exact h.rename key' rest running hstage hovertaken
      · exact h.current_of_ne (by rw [hstage]; rfl) hkey (hlock hkey) hovertaken
    split_ifs
    · refine .of_current (.inl rfl) fun key' hlock _ hovertaken =>
        (hrename key' (fun hne => ?_) hovertaken).of_eq rfl rfl
      change Function.update w.dir.lock key false key' = false at hlock
      rwa [Function.update_of_ne hne] at hlock
    · exact .of_current (.inl rfl) fun key' hlock _ hovertaken =>
        (hrename key' (fun _ => hlock) hovertaken).of_eq rfl rfl
  · next hstage =>
    exact h.between (by rw [hstage]; rfl) (.inl rfl) (fun key => listeners_restart (configPath_ne_control key)) rfl rfl
  · next app apps hstage =>
    refine h.between (by rw [hstage]; rfl) (.inl rfl) (fun key => listeners_restart fun heq => ?_) rfl rfl
    rw [preProcessing, lastWords_append_singleton] at heq
    exact configPath_ne_toDigits key app (List.singleton_inj.mp heq)

/-- One turn, of either monitor or of a sensor. -/
theorem Inv.step (h : w.Inv nodename) (turn : Turn) : (w.step shell nodename turn).Inv nodename := by
  cases turn with
  | monitor filenames => exact h.monitorStep filenames
  | receive received =>
    rw [NodeState.step]
    split
    · exact h.of_files rfl rfl fun key => .inl ⟨rfl, rfl, id⟩
    · exact h
  | task => exact h.taskStep
  | read i key => exact h.readConfig i key

/-- The invariant holds after every interleaving of the steps. -/
theorem Inv.run (h : w.Inv nodename) (turns : List Turn) : (w.run shell nodename turns).Inv nodename := by
  induction turns generalizing w with
  | nil => exact h
  | cons turn turns ih => exact ih (h.step turn)

end Steps

/-- `run` is to start, no sensor runs, and a sensor that has queue keys is locked. -/
structure Initial (w : NodeState) : Prop where
  monitor : w.monitor = .idle
  processes : w.processes = []
  queue : ∀ key queue, w.dir.lock key = false → w.queue key = some queue → queue = []

theorem Initial.inv (h : w.Initial) : w.Inv nodename := by
  have hnil : ∀ key, w.listeners nodename key = [] := fun key => by
    unfold listeners
    rw [h.processes, List.filter_nil]
  refine .of_current (.inl (by rw [h.monitor]; rfl)) fun key hlock _ _ => ⟨fun queue hqueue => ?_, fun p hp => ?_⟩
  · exact iff_of_true (hnil key) (h.queue key queue hlock hqueue)
  · exact absurd (hnil key ▸ hp : p ∈ []) List.not_mem_nil

/-- In every order of turns: a sensor that is unlocked and is not being started again runs if its file has queue keys,
and has read, or is to read, what its file says; unless the file was written after the monitor had read it. -/
theorem run_current (h : w.Initial) (turns : List Turn)
    (hlock : (w.run shell nodename turns).dir.lock key = false)
    (hhandled : (w.run shell nodename turns).monitor.handled ≠ some key)
    (hovertaken : (w.run shell nodename turns).overtaken key = false) :
    (w.run shell nodename turns).Current nodename key :=
  (h.inv.run turns).current key hlock hhandled hovertaken

/-- A program that the shell starts is one process. -/
def oneProcess : Shell where
  spawn cmd := [cmd]
  ne_nil cmd := List.cons_ne_nil cmd []
  last cmd c hc := by rw [List.mem_singleton.mp hc]

/-- One sensor, without tasks. -/
def oneSensor : NodeState where
  dir := {
    ini := fun key => if key = 1 then some ⟨strList [], []⟩ else none
    lock := fun _ => false
    unlock := fun key => key = 1
    json := [] }

theorem oneSensor_initial : oneSensor.Initial where
  monitor := rfl
  processes := rfl
  queue key queue _ hqueue := by
    change (if key = 1 then some (Config.mk (strList []) []) else none).bind _ = some queue at hqueue
    split_ifs at hqueue
    · rw [Option.bind_some, evalList_strList] at hqueue
      exact (Option.some.inj hqueue).symm
    · cases hqueue

theorem nodup_oneTask : ([(1, [10202])].map (Prod.fst : Nat × List Nat → Nat)).Nodup := by decide

/-- The deployment, all of `write2file`, and the sensor's start. -/
def deployTurns : List Turn :=
  .receive ⟨[(1, [10202])], nodup_oneTask⟩ :: List.replicate 5 .task ++ List.replicate 6 (.monitor [1])

/-- The sensor runs with what its file says. -/
theorem run_current_oneSensor :
    (oneSensor.run oneProcess (fun _ => []) deployTurns).Current (fun _ => []) 1 :=
  run_current oneSensor_initial deployTurns (by decide) (by decide) (by decide)

/-- The monitor starts the sensor again between `rename` and `write`: the sensor has a task and is unlocked, but off. -/
example : ¬ (oneSensor.run oneProcess (fun _ => []) (.receive ⟨[(1, [10202])], nodup_oneTask⟩ ::
    List.replicate 3 .task ++ List.replicate 5 (.monitor [1]) ++ [.task])).Current (fun _ => []) 1 := fun h =>
  absurd ((h.running [10202] (by decide)).mp rfl) (by decide)

end NodeState

end Soar.Node
