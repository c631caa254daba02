import Mathlib.Data.List.Nodup
import Mathlib.Data.List.TakeWhile
import Soar.Library.AlongRun
import Soar.Node.TaskMonitor

/-! When `write2file` applies a deployment as a whole. -/
namespace Soar.Node
open Soar.Library Soar.Computing

variable {dir dir' dir'' : Directory} {entry : Nat × List Nat} {entries : List (Nat × List Nat)} {key : Nat}

/-- The two directories have the same files of a sensor. -/
structure SameSensor (dir dir' : Directory) (key : Nat) : Prop where
  ini : dir'.ini key = dir.ini key
  lock : dir'.lock key = dir.lock key
  unlock : dir'.unlock key = dir.unlock key

theorem SameSensor.applied_iff (h : SameSensor dir dir' entry.1) : dir'.Applied entry ↔ dir.Applied entry := by
  unfold Directory.Applied Directory.Unchanged
  rw [h.ini, h.lock, h.unlock]

/-- What the first loop does: it adds the marker `.unlock` of the sensors that are to change. -/
structure Marked (entries : List (Nat × List Nat)) (dir dir' : Directory) : Prop where
  ini : dir'.ini = dir.ini
  lock : dir'.lock = dir.lock
  unlock : ∀ key, dir'.unlock key = true ↔ dir.unlock key = true ∨ ∃ e ∈ entries, e.1 = key ∧ ¬ dir.Unchanged e
  unchanged : (∀ e ∈ entries, dir.Unchanged e) → dir' = dir

theorem Directory.createUnlock_ini (dir : Directory) (key : Nat) : (dir.createUnlock key).ini = dir.ini := by
  unfold createUnlock
  split_ifs <;> rfl

theorem Directory.createUnlock_lock (dir : Directory) (key : Nat) : (dir.createUnlock key).lock = dir.lock := by
  unfold createUnlock
  split_ifs <;> rfl

theorem Directory.createUnlock_unlock (dir : Directory) (key key' : Nat) :
    (dir.createUnlock key).unlock key' = true ↔ dir.unlock key' = true ∨ key = key' := by
  unfold createUnlock
  split_ifs with hkey
  · refine ⟨.inl, fun h => ?_⟩
    rcases h with h | rfl
    · exact h
    · exact hkey
  · dsimp only
    by_cases heq : key' = key
    · subst heq
      simp
    · rw [Function.update_of_ne heq]
      exact ⟨.inl, fun h => h.resolve_right fun h => heq h.symm⟩

/-- The first loop marks the sensors that change, and says whether there is one. -/
theorem markChanged_marked (newTaskFlag : Bool) (hini : ∀ e ∈ entries, (dir.ini e.1).isSome) :
    ∃ dir', markChanged entries newTaskFlag dir =
      (some (newTaskFlag || entries.any fun e => !decide (dir.Unchanged e)), dir') ∧ Marked entries dir dir' := by
  induction entries generalizing newTaskFlag dir with
  | nil => exact ⟨dir, by simp [markChanged], rfl, rfl, by simp, fun _ => rfl⟩
  | cons e entries ih =>
    obtain ⟨key, queue⟩ := e
    obtain ⟨config, hconfig⟩ := Option.isSome_iff_exists.mp (hini (key, queue) (List.mem_cons_self ..))
    have hchanged : dir.Unchanged (key, queue) ↔ config.queueKey = strList queue := by
      unfold Directory.Unchanged
      rw [hconfig]
      exact Option.some_inj
    rw [markChanged, hconfig]
    dsimp only
    split_ifs with heq
    · obtain ⟨dir', hmark, hmarked⟩ := ih newTaskFlag fun e he => hini e (List.mem_cons_of_mem _ he)
      refine ⟨dir', ?_, hmarked.ini, hmarked.lock, fun key' => ?_, fun h => ?_⟩
      · rw [hmark, List.any_cons, decide_eq_true (hchanged.mpr heq)]
        rfl
      · rw [hmarked.unlock, List.exists_mem_cons_iff]
        have hnot : ¬ (key = key' ∧ ¬ dir.Unchanged (key, queue)) := fun h => h.2 (hchanged.mpr heq)
        rw [or_iff_right hnot]
      · exact hmarked.unchanged fun e he => h e (List.mem_cons_of_mem _ he)
    · have hcreated : ∀ e, (dir.createUnlock key).Unchanged e ↔ dir.Unchanged e := fun e => by
        unfold Directory.Unchanged
        rw [Directory.createUnlock_ini]
      have hini' : ∀ e ∈ entries, ((dir.createUnlock key).ini e.1).isSome := fun e he => by
        rw [Directory.createUnlock_ini]
        exact hini e (List.mem_cons_of_mem _ he)
      obtain ⟨dir', hmark, hmarked⟩ := ih true hini'
      refine ⟨dir', ?_, ?_, ?_, fun key' => ?_, fun h => ?_⟩
      · rw [hmark, List.any_cons, decide_eq_false fun h => heq (hchanged.mp h)]
        simp
      · rw [hmarked.ini, Directory.createUnlock_ini]
      · rw [hmarked.lock, Directory.createUnlock_lock]
      · rw [hmarked.unlock, Directory.createUnlock_unlock, List.exists_mem_cons_iff, or_assoc]
        simp only [hcreated]
        rw [and_iff_left (fun h => heq (hchanged.mp h))]
      · exact absurd (hchanged.mp (h (key, queue) (List.mem_cons_self ..))) heq

/-- The second loop stops at a sensor without the marker `.unlock`, -/
theorem writeKeys_cons_of_not (queue : List Nat) (hunlock : dir.unlock key = false) :
    writeKeys ((key, queue) :: entries) dir = (.raised, dir) := by
  rw [writeKeys, Directory.renameUnlock, if_neg (by rw [hunlock]; exact Bool.false_ne_true)]

/-- and applies the entry of a sensor that has it. -/
theorem writeKeys_cons (queue : List Nat) (hini : (dir.ini key).isSome) (hunlock : dir.unlock key = true) :
    ∃ dir', writeKeys ((key, queue) :: entries) dir = writeKeys entries dir' ∧ dir'.Applied (key, queue) ∧
      ∀ key' ≠ key, SameSensor dir dir' key' := by
  obtain ⟨config, hconfig⟩ := Option.isSome_iff_exists.mp hini
  rw [writeKeys, Directory.renameUnlock, if_pos hunlock]
  dsimp only
  rw [hconfig]
  refine ⟨_, rfl, ⟨?_, ?_, ?_⟩, fun key' hkey => ⟨?_, ?_, ?_⟩⟩
  · have hwritten : Function.update dir.ini key (some { config with queueKey := strList queue }) key = _ :=
      Function.update_self ..
    exact congrArg (Option.map Config.queueKey) hwritten
  · exact Function.update_self ..
  · exact Function.update_self ..
  · exact Function.update_of_ne hkey ..
  · exact Function.update_of_ne hkey ..
  · exact Function.update_of_ne hkey ..

theorem SameSensor.trans (h : SameSensor dir dir' key) (h' : SameSensor dir' dir'' key) : SameSensor dir dir'' key :=
  ⟨h'.ini.trans h.ini, h'.lock.trans h.lock, h'.unlock.trans h.unlock⟩

private theorem sameSensor_of_mem {e : Nat × List Nat} (hnodup : ((e :: entries).map Prod.fst).Nodup)
    (hframe : ∀ key ≠ e.1, SameSensor dir dir' key) : ∀ e' ∈ entries, SameSensor dir dir' e'.1 := by
  intro e' he'
  apply hframe
  intro heq
  exact (List.nodup_cons.mp hnodup).1 (heq ▸ List.mem_map_of_mem he')

theorem writeKeys_sameSensor (hnodup : (entries.map Prod.fst).Nodup) (hini : ∀ e ∈ entries, (dir.ini e.1).isSome)
    (hkey : key ∉ entries.map Prod.fst) : SameSensor dir (writeKeys entries dir).2 key := by
  induction entries generalizing dir with
  | nil => exact ⟨rfl, rfl, rfl⟩
  | cons e entries ih =>
    rw [List.map_cons, List.mem_cons, not_or] at hkey
    obtain ⟨hne, hkey⟩ := hkey
    cases hunlock : dir.unlock e.1 with
    | false =>
      rw [writeKeys_cons_of_not e.2 hunlock]
      exact ⟨rfl, rfl, rfl⟩
    | true =>
      obtain ⟨dir', hwrite, -, hframe⟩ := writeKeys_cons e.2 (hini e (List.mem_cons_self ..)) hunlock
      have hsame := sameSensor_of_mem hnodup hframe
      rw [hwrite]
      refine (hframe key hne).trans (ih (List.nodup_cons.mp hnodup).2 (fun e' he' => ?_) hkey)
      rw [(hsame e' he').ini]
      exact hini e' (List.mem_cons_of_mem e he')

/-- All entries are applied after the second loop if those from the first that it stops at are before. -/
theorem writeKeys_applied_iff {ready : Nat × List Nat → Bool} (hnodup : (entries.map Prod.fst).Nodup)
    (hini : ∀ e ∈ entries, (dir.ini e.1).isSome) (hready : ∀ e ∈ entries, dir.unlock e.1 = ready e) :
    (∀ e ∈ entries, (writeKeys entries dir).2.Applied e) ↔ ∀ e ∈ entries.dropWhile ready, dir.Applied e := by
  induction entries generalizing dir with
  | nil => simp
  | cons e entries ih =>
    have hfirst := hready e (List.mem_cons_self ..)
    cases hunlock : dir.unlock e.1 with
    | false =>
      rw [writeKeys_cons_of_not e.2 hunlock, List.dropWhile_cons_of_neg
        (by rw [← hfirst, hunlock]; exact Bool.false_ne_true)]
    | true =>
      obtain ⟨dir', hwrite, happlied, hframe⟩ := writeKeys_cons e.2 (hini e (List.mem_cons_self ..)) hunlock
      have hsame := sameSensor_of_mem hnodup hframe
      obtain ⟨hnotMem, hnodup⟩ := List.nodup_cons.mp hnodup
      have hini' : ∀ e' ∈ entries, (dir'.ini e'.1).isSome := fun e' he' => by
        rw [(hsame e' he').ini]
        exact hini e' (List.mem_cons_of_mem e he')
      have hready' : ∀ e' ∈ entries, dir'.unlock e'.1 = ready e' := fun e' he' => by
        rw [(hsame e' he').unlock]
        exact hready e' (List.mem_cons_of_mem e he')
      rw [hwrite, List.dropWhile_cons_of_pos (by rw [← hfirst, hunlock]), List.forall_mem_cons, ih hnodup hini' hready']
      have hhead : (writeKeys entries dir').2.Applied e :=
        (writeKeys_sameSensor hnodup hini' hnotMem).applied_iff.mpr happlied
      rw [and_iff_right hhead]
      refine forall₂_congr fun e' he' => (hsame e' ?_).applied_iff
      exact (List.dropWhile_sublist ready).subset he'

/-- The second loop needs the marker `.unlock` of every sensor listed. -/
theorem writeKeys_returned_iff (hnodup : (entries.map Prod.fst).Nodup) (hini : ∀ e ∈ entries, (dir.ini e.1).isSome) :
    (writeKeys entries dir).1 = .returned ↔ ∀ e ∈ entries, dir.unlock e.1 = true := by
  induction entries generalizing dir with
  | nil => simp [writeKeys]
  | cons e entries ih =>
    cases hunlock : dir.unlock e.1 with
    | false =>
      rw [writeKeys_cons_of_not e.2 hunlock]
      simp [hunlock]
    | true =>
      obtain ⟨dir', hwrite, -, hframe⟩ := writeKeys_cons e.2 (hini e (List.mem_cons_self ..)) hunlock
      have hsame := sameSensor_of_mem hnodup hframe
      have hini' : ∀ e' ∈ entries, (dir'.ini e'.1).isSome := fun e' he' => by
        rw [(hsame e' he').ini]
        exact hini e' (List.mem_cons_of_mem e he')
      rw [hwrite, ih (List.nodup_cons.mp hnodup).2 hini', List.forall_mem_cons, and_iff_right hunlock]
      exact forall₂_congr fun e' he' => by rw [(hsame e' he').unlock]

theorem Marked.unlock_eq (h : Marked entries dir dir') (hnodup : (entries.map Prod.fst).Nodup)
    (hentry : entry ∈ entries) :
    dir'.unlock entry.1 = decide (dir.Ready entry) := by
  rw [Bool.eq_iff_iff, h.unlock, decide_eq_true_iff, Directory.Ready, or_comm]
  refine or_congr_left ⟨?_, fun hchanged => ⟨entry, hentry, rfl, hchanged⟩⟩
  rintro ⟨e, he, hkey, hchanged⟩
  rwa [List.inj_on_of_nodup_map hnodup he hentry hkey] at hchanged

theorem Marked.applied_iff (h : Marked entries dir dir') (hnodup : (entries.map Prod.fst).Nodup)
    (hentry : entry ∈ entries) : dir'.Applied entry ↔ dir.Applied entry := by
  unfold Directory.Applied
  rw [h.unlock_eq hnodup hentry, h.lock, decide_eq_false_iff_not, Directory.Ready, not_or, not_not, Bool.not_eq_true]
  unfold Directory.Unchanged
  rw [h.ini]
  tauto

variable {received : Deployment}

/-- Without a change nothing is written. -/
theorem write2file_of_unchanged (hini : ∀ e ∈ received.entries, (dir.ini e.1).isSome)
    (h : ∀ e ∈ received.entries, dir.Unchanged e) : write2file received dir = (.returned, dir) := by
  obtain ⟨dir', hmark, hmarked⟩ := markChanged_marked false hini
  have hany : (received.entries.any fun e => !decide (dir.Unchanged e)) = false := by simpa using h
  rw [write2file, hmark, hany, hmarked.unchanged h]
  rfl

/-- With a change, the second loop runs. -/
theorem write2file_of_changed (hini : ∀ e ∈ received.entries, (dir.ini e.1).isSome)
    (h : ¬ ∀ e ∈ received.entries, dir.Unchanged e) : ∃ dir', Marked received.entries dir dir' ∧
      (write2file received dir).1 = (writeKeys received.entries dir').1 ∧
      ∀ key, SameSensor (writeKeys received.entries dir').2 (write2file received dir).2 key := by
  obtain ⟨dir', hmark, hmarked⟩ := markChanged_marked false hini
  have hany : (received.entries.any fun e => !decide (dir.Unchanged e)) = true := by simpa using h
  refine ⟨dir', hmarked, ?_⟩
  rw [write2file, hmark, hany, Bool.false_or]
  dsimp only
  cases hwrite : writeKeys received.entries dir' with
  | mk outcome dir'' =>
    cases outcome with
    | returned => exact ⟨rfl, fun _ => ⟨rfl, rfl, rfl⟩⟩
    | raised => exact ⟨rfl, fun _ => ⟨rfl, rfl, rfl⟩⟩

/-- `write2file` returns if nothing changes or every sensor that stays as it is has the marker `.unlock`. -/
theorem write2file_returned_iff (hini : ∀ e ∈ received.entries, (dir.ini e.1).isSome) :
    (write2file received dir).1 = .returned ↔
      (∀ e ∈ received.entries, dir.Unchanged e) ∨ ∀ e ∈ received.entries, dir.Ready e := by
  by_cases hall : ∀ e ∈ received.entries, dir.Unchanged e
  · rw [write2file_of_unchanged hini hall]
    exact iff_of_true rfl (.inl hall)
  · obtain ⟨dir', hmarked, houtcome, -⟩ := write2file_of_changed hini hall
    have hini' : ∀ e ∈ received.entries, (dir'.ini e.1).isSome := fun e he => by
      rw [hmarked.ini]
      exact hini e he
    rw [houtcome, writeKeys_returned_iff received.nodup hini', or_iff_right hall]
    exact forall₂_congr fun e he => by rw [hmarked.unlock_eq received.nodup he, decide_eq_true_iff]

/-- With a change, all is applied if and only if nothing is left to do from the sensor on that the second loop
stops at. -/
theorem write2file_applied_iff (hini : ∀ e ∈ received.entries, (dir.ini e.1).isSome)
    (h : ¬ ∀ e ∈ received.entries, dir.Unchanged e) :
    (∀ e ∈ received.entries, (write2file received dir).2.Applied e) ↔
      ∀ e ∈ received.entries.dropWhile fun e => dir.Ready e, dir.Applied e := by
  obtain ⟨dir', hmarked, -, hsame⟩ := write2file_of_changed hini h
  have hini' : ∀ e ∈ received.entries, (dir'.ini e.1).isSome := fun e he => by
    rw [hmarked.ini]
    exact hini e he
  have hwrite := writeKeys_applied_iff received.nodup hini' fun e he => hmarked.unlock_eq received.nodup he
  rw [forall₂_congr fun e _ => (hsame e.1).applied_iff, hwrite]
  refine forall₂_congr fun e he => hmarked.applied_iff received.nodup ?_
  exact (List.dropWhile_sublist _).subset he

/-- `write2file` applies a deployment as a whole, or leaves everything as it was, exactly if nothing is to change or
nothing is left to do from the sensor on that the second loop stops at. -/
theorem write2file_atomic_iff (received : Deployment) (dir : Directory)
    (hini : ∀ e ∈ received.entries, (dir.ini e.1).isSome) :
    Atomic dir received (write2file received dir).2 ↔ (∀ e ∈ received.entries, dir.Unchanged e) ∨
      ∀ e ∈ received.entries.dropWhile fun e => dir.Ready e, dir.Applied e := by
  by_cases hall : ∀ e ∈ received.entries, dir.Unchanged e
  · rw [write2file_of_unchanged hini hall]
    exact iff_of_true (.inr ⟨hall, rfl⟩) (.inl hall)
  · unfold Atomic
    rw [or_iff_right hall, or_iff_left fun h => hall h.1]
    exact write2file_applied_iff hini hall

/-- The sensors that are not listed keep their files. -/
theorem write2file_other (hini : ∀ e ∈ received.entries, (dir.ini e.1).isSome)
    (hkey : key ∉ received.entries.map Prod.fst) : (write2file received dir).2.ini key = dir.ini key ∧
      (dir.unlock key = true → (write2file received dir).2.unlock key = true) := by
  by_cases hall : ∀ e ∈ received.entries, dir.Unchanged e
  · rw [write2file_of_unchanged hini hall]
    exact ⟨rfl, id⟩
  · obtain ⟨dir', hmarked, -, hsame⟩ := write2file_of_changed hini hall
    have hini' : ∀ e ∈ received.entries, (dir'.ini e.1).isSome := fun e he => by
      rw [hmarked.ini]
      exact hini e he
    have hkept := (writeKeys_sameSensor received.nodup hini' hkey).trans (hsame key)
    rw [hkept.ini, hkept.unlock, hmarked.ini, hmarked.unlock]
    exact ⟨rfl, .inl⟩

/-- The sensors 1 to 3 with the key 10201. Sensor 2 has not been started since its last deployment. -/
def threeSensors : Directory where
  ini key := if key = 1 ∨ key = 2 ∨ key = 3 then some ⟨strList [10201], []⟩ else none
  lock key := key == 2
  unlock _ := false
  json := []

/-- Sensor 2 is not listed. -/
def oneAndThree : Deployment := ⟨[(1, [10202]), (3, [10203])], by decide⟩

/-- Two of the three sensors change. -/
theorem write2file_atomic_iff_oneAndThree :
    Atomic threeSensors oneAndThree (write2file oneAndThree threeSensors).2 :=
  (write2file_atomic_iff oneAndThree threeSensors (by decide)).mpr (.inr (by decide +kernel))

/-- Sensor 2 stays as it is. -/
def aroundTwo : Deployment := ⟨[(1, [10202]), (2, [10201]), (3, [10202])], by decide⟩

/-- Sensor 1 has its new key, then the second loop stops at sensor 2. -/
theorem not_atomic_aroundTwo :
    (∀ key, ¬ (threeSensors.lock key = true ∧ threeSensors.unlock key = true)) ∧
    (∀ e ∈ aroundTwo.entries, (threeSensors.ini e.1).isSome) ∧
    (write2file aroundTwo threeSensors).1 = .raised ∧ (write2file aroundTwo threeSensors).2.Applied (1, [10202]) ∧
    ¬ (write2file aroundTwo threeSensors).2.Unchanged (3, [10202]) ∧
    ¬ Atomic threeSensors aroundTwo (write2file aroundTwo threeSensors).2 := by
  have hthird : ¬ (write2file aroundTwo threeSensors).2.Unchanged (3, [10202]) := by decide +kernel
  refine ⟨fun key h => Bool.false_ne_true h.2, by decide, by decide +kernel, by decide +kernel, hthird, ?_⟩
  rintro (happlied | ⟨hunchanged, -⟩)
  · exact hthird (happlied (3, [10202]) (by decide)).1
  · exact absurd (hunchanged (1, [10202]) (by decide)) (by decide +kernel)

end Soar.Node
