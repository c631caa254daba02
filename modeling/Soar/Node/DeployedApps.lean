import Soar.Library.Loops
import Soar.Node.DeploymentAtomicity

/-! The tasks that a node runs: the keys in the ini files of all its sensors. -/
namespace Soar.Node
open Soar.Computing Soar.Library

/-- The items of a list display up to its bracket, after the first `digits` of the first. -/
def evalItems (digits : Bytes) : Bytes → Option (List Nat)
  | [] => none
  | [93] => (int? digits).map ([·])
  | 44 :: 32 :: s => do return (← int? digits) :: (← evalItems [] s)
  | b :: s => evalItems (digits ++ [b]) s

/-- `eval` on the texts of lists of integers. -/
def evalList : Bytes → Option (List Nat)
  | [91, 93] => some []
  | 91 :: s => evalItems [] s
  | _ => none

/-- `update_deployed_app`, for the sensors whose ini files are listed. -/
def updateDeployedApp (dir : Directory) (filenames : List Nat) : Option (List Nat) := do
  let queues ← filenames.mapM fun key => do evalList (← dir.ini key).queueKey
  return queues.flatten

/-- The sensor has the queue key `taskId`. -/
def Directory.DeployedAt (dir : Directory) (key taskId : Nat) : Prop :=
  ∃ config queue, dir.ini key = some config ∧ evalList config.queueKey = some queue ∧ taskId ∈ queue

/-- The union of the queue keys of all sensors has `taskId`. -/
def Directory.Deployed (dir : Directory) (taskId : Nat) : Prop := ∃ key, dir.DeployedAt key taskId

section Eval

private theorem evalItems_digits {digits text rest : Bytes} (h : ∀ b ∈ text, isDigit b = true) :
    evalItems digits (text ++ rest) = evalItems (digits ++ text) rest := by
  induction text generalizing digits with
  | nil => rw [List.nil_append, List.append_nil]
  | cons b text ih =>
    have hb := h b (List.mem_cons_self ..)
    rw [List.cons_append, evalItems, ih fun b' hb' => h b' (List.mem_cons_of_mem _ hb'), List.append_assoc,
      List.singleton_append]
    · rintro rfl
      exact absurd hb (by decide)
    · rintro _ rfl
      exact absurd hb (by decide)

private theorem evalItems_intercalate (n : Nat) (keys : List Nat) :
    evalItems [] (List.intercalate [44, 32] ((n :: keys).map str) ++ [93]) = some (n :: keys) := by
  have hdigits : ∀ m : Nat, ∀ b ∈ str m, isDigit b = true := fun _ _ hb => (mem_str hb).1
  induction keys generalizing n with
  | nil =>
    rw [List.map_singleton, List.intercalate_singleton, evalItems_digits (hdigits n), evalItems, List.nil_append,
      int?_str]
    rfl
  | cons m keys ih =>
    have hseparator : ∀ digits rest : Bytes, evalItems digits ([44, 32] ++ rest) =
        (int? digits).bind fun n => (evalItems [] rest).bind fun keys => some (n :: keys) := fun _ _ => rfl
    rw [List.map_cons, List.map_cons, List.intercalate_cons_cons, ← List.map_cons, List.append_assoc,
      List.append_assoc, evalItems_digits (hdigits n), hseparator, List.nil_append, int?_str, ih]
    rfl

theorem evalList_strList (keys : List Nat) : evalList (strList keys) = some keys := by
  cases keys with
  | nil => rfl
  | cons n keys =>
    rw [← evalItems_intercalate n keys]
    unfold strList
    rw [List.append_assoc]
    apply evalList.eq_2 _
    intro hclosed
    -- the bracket alone is no item
    have hitems := evalItems_intercalate n keys
    rw [show List.intercalate [44, 32] ((n :: keys).map str) ++ [93] = [93] from hclosed] at hitems
    cases hitems

end Eval

variable {dir : Directory} {received : Deployment} {key taskId : Nat}

/-- `update_deployed_app` collects what is deployed. -/
theorem mem_updateDeployedApp {filenames apps : List Nat} (h : updateDeployedApp dir filenames = some apps)
    (hini : ∀ key, (dir.ini key).isSome ↔ key ∈ filenames) : taskId ∈ apps ↔ dir.Deployed taskId := by
  unfold updateDeployedApp at h
  obtain ⟨queues, hqueues, h⟩ := Option.bind_eq_some_iff.mp h
  obtain rfl := Option.some.inj h
  rw [List.mem_flatten]
  constructor
  · rintro ⟨queue, hqueue, hmem⟩
    obtain ⟨key, -, heval⟩ := exists_of_mem_mapM hqueues hqueue
    obtain ⟨config, hconfig, heval⟩ := Option.bind_eq_some_iff.mp heval
    exact ⟨key, config, queue, hconfig, heval, hmem⟩
  · rintro ⟨key, config, queue, hconfig, heval, hmem⟩
    have hkey : key ∈ filenames := (hini key).mp (by rw [hconfig]; rfl)
    obtain ⟨queue', hqueue', heval'⟩ := exists_mem_mapM hqueues hkey
    rw [hconfig, Option.bind_eq_bind, Option.bind_some, heval] at heval'
    obtain rfl := Option.some.inj heval'
    exact ⟨queue, hqueue', hmem⟩

theorem Directory.Unchanged.deployedAt_iff {entry : Nat × List Nat} (h : dir.Unchanged entry) :
    dir.DeployedAt entry.1 taskId ↔ taskId ∈ entry.2 := by
  obtain ⟨config, hconfig, hkey⟩ := Option.map_eq_some_iff.mp h
  constructor
  · rintro ⟨config', queue, hconfig', heval, hmem⟩
    obtain rfl := Option.some.inj (hconfig.symm.trans hconfig')
    rw [hkey, evalList_strList] at heval
    exact Option.some.inj heval ▸ hmem
  · exact fun hmem => ⟨config, entry.2, hconfig, by rw [hkey, evalList_strList], hmem⟩

theorem run_ini (sensors : List Nat) (dir : Directory) : (run sensors dir).ini = dir.ini := by
  induction sensors generalizing dir with
  | nil => rfl
  | cons key sensors ih =>
    rw [run, ih]
    split_ifs <;> rfl

/-- The first loop raises at a sensor without a file. -/
theorem markChanged_isSome {entries : List (Nat × List Nat)} {newTaskFlag flag : Bool} {dir' : Directory}
    (h : markChanged entries newTaskFlag dir = (some flag, dir')) : ∀ e ∈ entries, (dir.ini e.1).isSome := by
  induction entries generalizing newTaskFlag dir with
  | nil => nofun
  | cons e entries ih =>
    rw [markChanged] at h
    cases hini : dir.ini e.1 with
    | none =>
      rw [hini] at h
      cases h
    | some config =>
      rw [hini] at h
      refine List.forall_mem_cons.mpr ⟨by rw [hini]; rfl, ?_⟩
      dsimp only at h
      split_ifs at h
      · exact ih h
      · intro e' he'
        rw [← Directory.createUnlock_ini dir e.1]
        exact ih h e' he'

/-- Without an error, the sensors listed have what was received, and the others what they had. -/
theorem write2file_returned (h : (write2file received dir).1 = .returned) :
    (∀ e ∈ received.entries, (write2file received dir).2.Unchanged e) ∧
      ∀ key ∉ received.entries.map Prod.fst, (write2file received dir).2.ini key = dir.ini key := by
  have hini : ∀ e ∈ received.entries, (dir.ini e.1).isSome := by
    cases hmark : markChanged received.entries false dir with
    | mk flag dir' =>
      cases flag with
      | none =>
        rw [write2file, hmark] at h
        cases h
      | some flag => exact markChanged_isSome hmark
  refine ⟨?_, fun key hkey => (write2file_other hini hkey).1⟩
  by_cases hall : ∀ e ∈ received.entries, dir.Unchanged e
  · rw [write2file_of_unchanged hini hall]
    exact hall
  · have hready := ((write2file_returned_iff hini).mp h).resolve_left hall
    have happlied := (write2file_applied_iff hini hall).mpr fun e he => by
      rw [List.dropWhile_eq_nil_iff.mpr fun e he => decide_eq_true (hready e he)] at he
      cases he
    exact fun e he => (happlied e he).1

/-- What is deployed on a node then: what was received, and what the other sensors still have. -/
theorem deployed_write2file (h : (write2file received dir).1 = .returned) :
    (write2file received dir).2.Deployed taskId ↔ (∃ e ∈ received.entries, taskId ∈ e.2) ∨
      ∃ key ∉ received.entries.map Prod.fst, dir.DeployedAt key taskId := by
  obtain ⟨hlisted, hother⟩ := write2file_returned h
  have hkept : ∀ key ∉ received.entries.map Prod.fst,
      ((write2file received dir).2.DeployedAt key taskId ↔ dir.DeployedAt key taskId) := fun key hkey => by
    unfold Directory.DeployedAt
    rw [hother key hkey]
  constructor
  · rintro ⟨key, hkey⟩
    by_cases hmem : key ∈ received.entries.map Prod.fst
    · obtain ⟨e, he, rfl⟩ := List.mem_map.mp hmem
      exact .inl ⟨e, he, (hlisted e he).deployedAt_iff.mp hkey⟩
    · exact .inr ⟨key, hmem, (hkept key hmem).mp hkey⟩
  · rintro (⟨e, he, hmem⟩ | ⟨key, hkey, hdeployed⟩)
    · exact ⟨e.1, (hlisted e he).deployedAt_iff.mpr hmem⟩
    · exact ⟨key, (hkept key hkey).mpr hdeployed⟩

end Soar.Node
