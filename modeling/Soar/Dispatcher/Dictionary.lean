import Soar.Dispatcher.Allocator

/-! Dictionaries as association lists in the order of insertion. -/
namespace Soar.Dispatcher

variable {κ ν : Type} [DecidableEq κ]

/-- Only the value of the key changes. -/
theorem lookup_updateKey (default : ν) (f : ν → ν) (key k : κ) (dict : List (κ × ν)) :
    (updateKey default f key dict).lookup k =
      if k = key then some (f ((dict.lookup key).getD default)) else dict.lookup k := by
  induction dict with
  | nil =>
    unfold updateKey
    split_ifs with h
    · rw [h, List.lookup_cons_self]
      rfl
    · rw [List.lookup_cons, beq_false_of_ne h]
  | cons entry dict ih =>
    obtain ⟨k', v⟩ := entry
    unfold updateKey
    simp only [List.lookup_cons]
    by_cases hk : k' = key
    · subst hk
      by_cases h : k = k'
      · subst h
        simp
      · simp [List.lookup_cons, h, beq_false_of_ne h]
    · rw [if_neg hk, List.lookup_cons, ih, beq_false_of_ne (Ne.symm hk)]
      by_cases h : k = key
      · rw [if_pos h, if_pos h, beq_false_of_ne (h ▸ Ne.symm hk)]
      · rw [if_neg h, if_neg h]

/-- A new key comes last. -/
theorem keys_updateKey (default : ν) (f : ν → ν) (key : κ) (dict : List (κ × ν)) :
    (updateKey default f key dict).map Prod.fst =
      if key ∈ dict.map Prod.fst then dict.map Prod.fst else dict.map Prod.fst ++ [key] := by
  induction dict with
  | nil => rfl
  | cons entry dict ih =>
    obtain ⟨k, v⟩ := entry
    unfold updateKey
    by_cases hk : k = key
    · simp [hk]
    · rw [if_neg hk, List.map_cons, ih, List.map_cons]
      by_cases hmem : key ∈ dict.map Prod.fst
      · rw [if_pos hmem, if_pos (List.mem_cons_of_mem _ hmem)]
      · rw [if_neg hmem, if_neg (by simpa [Ne.symm hk] using hmem), List.cons_append]

theorem nodup_keys_updateKey {default : ν} {f : ν → ν} {key : κ} {dict : List (κ × ν)}
    (h : (dict.map Prod.fst).Nodup) : ((updateKey default f key dict).map Prod.fst).Nodup := by
  rw [keys_updateKey]
  split_ifs with hmem
  · exact h
  · refine List.nodup_append.mpr ⟨h, List.nodup_singleton _, fun k hk k' hk' heq => hmem ?_⟩
    exact heq.trans (List.mem_singleton.mp hk') ▸ hk

theorem mem_updateKey {default : ν} {f : ν → ν} {key : κ} {dict : List (κ × ν)} {entry : κ × ν}
    (h : entry ∈ updateKey default f key dict) : entry ∈ dict ∨ ∃ v, entry = (key, f v) := by
  induction dict with
  | nil => exact .inr ⟨default, List.mem_singleton.mp h⟩
  | cons e dict ih =>
    obtain ⟨k, v⟩ := e
    unfold updateKey at h
    split_ifs at h with hk
    · rcases List.mem_cons.mp h with rfl | h
      · exact .inr ⟨v, hk ▸ rfl⟩
      · exact .inl (List.mem_cons_of_mem _ h)
    · rcases List.mem_cons.mp h with rfl | h
      · exact .inl (List.mem_cons_self ..)
      · exact (ih h).imp_left (List.mem_cons_of_mem _)

/-- `d[key].append(x)`. -/
theorem mem_append_updateKey {α : Type} {x y : α} {key : κ} {dict : List (κ × List α)} :
    (∃ entry ∈ updateKey [] (· ++ [x]) key dict, y ∈ entry.2) ↔ (∃ entry ∈ dict, y ∈ entry.2) ∨ y = x := by
  induction dict with
  | nil => simp [updateKey]
  | cons entry dict ih =>
    obtain ⟨k, v⟩ := entry
    unfold updateKey
    split_ifs
    · simp only [List.exists_mem_cons_iff, List.mem_append, List.mem_singleton]
      exact or_right_comm
    · rw [List.exists_mem_cons_iff, List.exists_mem_cons_iff, ih, or_assoc]

/-- What is read off all entries, when the change of a value adds `extra` to what is read off it. -/
theorem flatMap_updateKey_perm {β : Type} {default : ν} {f : ν → ν} {key : κ} (g : κ × ν → List β) (extra : List β)
    (hdefault : g (key, default) = []) (hf : ∀ v, (g (key, f v)).Perm (g (key, v) ++ extra)) (dict : List (κ × ν)) :
    ((updateKey default f key dict).flatMap g).Perm (dict.flatMap g ++ extra) := by
  induction dict with
  | nil =>
    have hnew := hf default
    rw [hdefault, List.nil_append] at hnew
    simpa [updateKey] using hnew
  | cons entry dict ih =>
    obtain ⟨k, v⟩ := entry
    unfold updateKey
    split_ifs with hk
    · subst hk
      rw [List.flatMap_cons, List.flatMap_cons]
      calc (g (k, f v) ++ dict.flatMap g).Perm (g (k, v) ++ extra ++ dict.flatMap g) := (hf v).append_right _
        _ = g (k, v) ++ (extra ++ dict.flatMap g) := List.append_assoc ..
        _ |>.Perm (g (k, v) ++ (dict.flatMap g ++ extra)) := List.perm_append_comm.append_left _
        _ = g (k, v) ++ dict.flatMap g ++ extra := (List.append_assoc ..).symm
    · rw [List.flatMap_cons, List.flatMap_cons, List.append_assoc]
      exact ih.append_left _

end Soar.Dispatcher
