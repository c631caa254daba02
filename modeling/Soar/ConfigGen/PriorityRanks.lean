import Soar.ConfigGen.KeySeparation

/-! The priorities that the generator gives to the tasks. -/
namespace Soar.ConfigGen
open Soar.Library

section Ranks

variable {prioprityIndex : List Nat} {n : Nat}

private theorem map_idxOf_self (h : prioprityIndex.Nodup) :
    prioprityIndex.map (prioprityIndex.idxOf ·) = List.range prioprityIndex.length := by
  apply List.ext_getElem
  · rw [List.length_map, List.length_range]
  · intro i _ hi
    rw [List.getElem_map, List.getElem_range]
    exact h.idxOf_getElem i _

private theorem idxOf_perm (h : prioprityIndex.Perm (List.range n)) :
    ((List.range n).map (prioprityIndex.idxOf ·)).Perm (List.range n) := by
  have hnodup : prioprityIndex.Nodup := h.nodup_iff.mpr List.nodup_range
  have hself := h.map (prioprityIndex.idxOf ·)
  rw [map_idxOf_self hnodup, h.length_eq, List.length_range] at hself
  exact hself.symm

private theorem idxOf_lt_idxOf {deadline : List Nat} {i j : Nat}
    (hsorted : prioprityIndex.Pairwise fun i j => deadline.getD i 0 ≤ deadline.getD j 0)
    (hi : i ∈ prioprityIndex) (hj : j ∈ prioprityIndex) (hlt : deadline.getD i 0 < deadline.getD j 0) :
    prioprityIndex.idxOf i < prioprityIndex.idxOf j := by
  have hi' := List.idxOf_lt_length_of_mem hi
  have hj' := List.idxOf_lt_length_of_mem hj
  rcases Nat.lt_trichotomy (prioprityIndex.idxOf i) (prioprityIndex.idxOf j) with h | h | h
  · exact h
  · rw [(List.idxOf_inj hi).mp h] at hlt
    exact absurd hlt (Nat.lt_irrefl _)
  · have hle := List.pairwise_iff_getElem.mp hsorted _ _ hj' hi' h
    rw [List.getElem_idxOf, List.getElem_idxOf] at hle
    exact absurd hlt (Nat.not_lt.mpr hle)

end Ranks

private theorem TaskRow.config_priority {row : TaskRow} {sensorRows : List SensorRow} {deadline priority : Nat}
    {app : AppConfig} (h : row.config sensorRows deadline priority = some app) : app.priority = priority := by
  unfold TaskRow.config at h
  obtain ⟨sensorRow, -, h⟩ := Option.bind_eq_some_iff.mp h
  split_ifs at h
  obtain rfl := Option.some.inj h
  rfl

private theorem generate_priorities {nodeAllocation : NodeAllocation} {deadline prioprityIndex : List Nat}
    (h : prioprityIndex.Perm (List.range deadline.length)) {c : Configs}
    (hc : generate nodeAllocation deadline prioprityIndex = some c) :
    c.apps.map (·.priority) =
        (List.range nodeAllocation.placements.length).map (fun i => prioprityIndex.idxOf i + 1) ∧
      nodeAllocation.placements.length ≤ deadline.length := by
  unfold generate at hc
  simp only [prioprity_eq h, Option.bind_eq_bind, Option.bind_some] at hc
  split_ifs at hc
  obtain ⟨sensors, -, hc⟩ := Option.bind_eq_some_iff.mp hc
  obtain ⟨apps, ha, hc⟩ := Option.bind_eq_some_iff.mp hc
  obtain rfl := Option.some.inj hc
  rw [(collect_eq nodeAllocation).2] at ha
  have hrow : ∀ row ∈ nodeAllocation.placements.zipIdx, ∀ app : AppConfig,
      ((deadline[row.2]?).bind fun d => (((List.range deadline.length).map fun i =>
        prioprityIndex.idxOf i + 1)[row.2]?).bind fun p => row.1.config (collect nodeAllocation).1 d p) = some app →
      row.2 < deadline.length ∧ app.priority = prioprityIndex.idxOf row.2 + 1 := by
    intro row _ app happ
    obtain ⟨d, hd, happ⟩ := Option.bind_eq_some_iff.mp happ
    obtain ⟨p, hp, happ⟩ := Option.bind_eq_some_iff.mp happ
    obtain ⟨hlt, -⟩ := List.getElem?_eq_some_iff.mp hd
    rw [List.getElem?_map, List.getElem?_range hlt] at hp
    obtain rfl := Option.some.inj hp
    exact ⟨hlt, TaskRow.config_priority happ⟩
  constructor
  · have hpriorities := mapM_of_mapM (h := fun app : AppConfig => some app.priority) ha
      fun row hmem app happ => congrArg some (hrow row hmem app happ).2
    rw [mapM_eq_map fun _ _ => rfl] at hpriorities
    rw [Option.some.inj hpriorities, List.range_eq_range', ← List.zipIdx_map_snd 0 nodeAllocation.placements,
      List.map_map]
    rfl
  · rcases Nat.eq_zero_or_pos nodeAllocation.placements.length with hzero | hpos
    · omega
    · have hlast : nodeAllocation.placements.length - 1 < nodeAllocation.placements.length := by omega
      have hmem : (nodeAllocation.placements[nodeAllocation.placements.length - 1],
          nodeAllocation.placements.length - 1) ∈ nodeAllocation.placements.zipIdx :=
        List.mem_zipIdx_iff_getElem?.mpr (List.getElem?_eq_getElem hlast)
      obtain ⟨app, -, happ⟩ := exists_mem_mapM ha hmem
      have := (hrow _ hmem app happ).1
      omega

/-- The priorities are a permutation of `1 .. n`, a smaller deadline gets a smaller number, and no
two generated applications share one. -/
theorem prioprity_ranks {deadline prioprityIndex : List Nat}
    (hperm : prioprityIndex.Perm (List.range deadline.length))
    (hsorted : prioprityIndex.Pairwise fun i j => deadline.getD i 0 ≤ deadline.getD j 0) :
    (∃ ranks, prioprity deadline prioprityIndex = some ranks ∧
      ranks.Perm (List.range' 1 deadline.length) ∧ ranks.Nodup ∧
      ∀ i j, i < deadline.length → j < deadline.length →
        deadline.getD i 0 < deadline.getD j 0 → ranks.getD i 0 < ranks.getD j 0) ∧
    ∀ nodeAllocation c, generate nodeAllocation deadline prioprityIndex = some c →
      (c.apps.map (·.priority)).Nodup := by
  have hranks : ((List.range deadline.length).map fun i => prioprityIndex.idxOf i + 1).Perm
      (List.range' 1 deadline.length) := by
    have hsucc := (idxOf_perm hperm).map (1 + ·)
    rw [List.map_map, List.range_eq_range', List.map_add_range'] at hsucc
    simpa [Function.comp_def, Nat.add_comm, List.range_eq_range'] using hsucc
  have hnodup := hranks.nodup_iff.mpr List.nodup_range'
  constructor
  · refine ⟨_, prioprity_eq hperm, hranks, hnodup, ?_⟩
    intro i j hi hj hlt
    have hmem : ∀ k, k < deadline.length → k ∈ prioprityIndex :=
      fun k hk => hperm.mem_iff.mpr (List.mem_range.mpr hk)
    have hidx := idxOf_lt_idxOf hsorted (hmem i hi) (hmem j hj) hlt
    simp [hi, hj, hidx]
  · intro nodeAllocation c hc
    obtain ⟨heq, hle⟩ := generate_priorities hperm hc
    rw [heq]
    exact hnodup.sublist ((List.range_sublist.mpr hle).map _)

/-- Five tasks, two of them with the same deadline. -/
theorem prioprity_ranks_tie :
    (∃ ranks, prioprity [249, 301, 245, 249, 252] [2, 0, 3, 4, 1] = some ranks ∧
      ranks.Perm (List.range' 1 5) ∧ ranks.Nodup ∧
      ∀ i j, i < 5 → j < 5 → [249, 301, 245, 249, 252].getD i 0 < [249, 301, 245, 249, 252].getD j 0 →
        ranks.getD i 0 < ranks.getD j 0) ∧
    ∀ nodeAllocation c, generate nodeAllocation [249, 301, 245, 249, 252] [2, 0, 3, 4, 1] = some c →
      (c.apps.map (·.priority)).Nodup :=
  prioprity_ranks (by decide) (by decide)

end Soar.ConfigGen
