import Mathlib.Data.List.SplitBy
import Mathlib.Data.List.Infix
import Mathlib.Data.List.DropRight

/-! The stretches of a list: the longest segments of consecutive elements that share a key. -/
namespace Soar.Library

variable {α β : Type} [DecidableEq β]

/-- The stretches of consecutive elements of one key, in their order. -/
def stretches (key : α → β) (l : List α) : List (List α) := l.splitBy fun a b => decide (key a = key b)

variable {key : α → β} {l : List α}

/-- The stretches are the list. -/
theorem flatten_stretches (key : α → β) (l : List α) : (stretches key l).flatten = l := List.flatten_splitBy _ l

theorem mem_of_mem_stretches {run : List α} (h : run ∈ stretches key l) {a : α} (ha : a ∈ run) : a ∈ l := by
  rw [← flatten_stretches key l]
  exact List.mem_flatten_of_mem h ha

theorem ne_nil_of_mem_stretches {run : List α} (h : run ∈ stretches key l) : run ≠ [] := List.ne_nil_of_mem_splitBy h

/-- The key is the same within a stretch. -/
theorem key_eq_of_mem_stretches {run : List α} (h : run ∈ stretches key l) {a b : α} (ha : a ∈ run) (hb : b ∈ run) :
    key a = key b := by
  have hchain : run.IsChain fun x y => key x = key y :=
    (List.isChain_of_mem_splitBy h).imp fun _ _ hxy => of_decide_eq_true hxy
  obtain _ | ⟨c, run⟩ := run
  · cases ha
  · have hhead : ∀ x ∈ c :: run, key c = key x := by
      intro x hx
      rcases List.mem_cons.mp hx with rfl | hx
      · rfl
      · have : Trans (fun x y : α => key x = key y) (fun x y => key x = key y) (fun x y => key x = key y) :=
          ⟨fun hxy hyz => hxy.trans hyz⟩
        exact List.rel_of_pairwise_cons hchain.pairwise hx
    exact (hhead a ha).symm.trans (hhead b hb)

/-- An element of another key than the last one opens a stretch. -/
theorem stretches_concat_new {b : α} (h : ∀ a ∈ l.getLast?, key a ≠ key b) :
    stretches key (l ++ [b]) = stretches key l ++ [[b]] :=
  List.splitBy_append_cons [] fun a ha => decide_eq_false (h a ha)

/-- An element of the last stretch's key joins it. -/
theorem stretches_concat_same {left : List (List α)} {run : List α} {b : α} (h : stretches key l = left ++ [run])
    (hb : ∀ a ∈ run, key a = key b) : stretches key (l ++ [b]) = left ++ [run ++ [b]] := by
  have hrun : run ∈ stretches key l := by simp [h]
  obtain ⟨hflat, hnil, hchain, hbreak⟩ := List.splitBy_eq_iff.mp h
  refine List.splitBy_eq_iff.mpr ⟨?_, ?_, ?_, ?_⟩
  · rw [hflat]
    simp
  · simp only [List.mem_append, List.mem_singleton, not_or] at hnil ⊢
    exact ⟨hnil.1, by simp⟩
  · intro m hm
    rcases List.mem_append.mp hm with hm | hm
    · exact hchain m (List.mem_append_left _ hm)
    · obtain rfl := List.mem_singleton.mp hm
      refine List.isChain_append.mpr ⟨hchain run (by simp), List.isChain_singleton b, ?_⟩
      intro a ha c hc
      obtain rfl : b = c := by simpa using hc
      exact decide_eq_true (hb a (List.mem_of_getLast? ha))
  · rw [List.isChain_append] at hbreak ⊢
    refine ⟨hbreak.1, List.isChain_singleton _, ?_⟩
    intro m hm m' hm'
    obtain rfl : run ++ [b] = m' := by simpa using hm'
    obtain ⟨hm₀, hr₀, hne⟩ := hbreak.2.2 m hm run rfl
    refine ⟨hm₀, List.append_ne_nil_of_left_ne_nil hr₀ [b], ?_⟩
    rwa [List.head_append_of_ne_nil hr₀]

/-- The last element belongs to the last stretch. -/
theorem exists_last_stretch (key : α → β) {a : α} (ha : a ∈ l.getLast?) :
    ∃ left run, stretches key l = left ++ [run] ∧ a ∈ run := by
  have hl : l ≠ [] := by
    rintro rfl
    cases ha
  have hs : stretches key l ≠ [] := List.splitBy_ne_nil.mpr hl
  refine ⟨(stretches key l).dropLast, (stretches key l).getLast hs, (List.dropLast_append_getLast hs).symm, ?_⟩
  have hlast := List.getLast_getLast_splitBy (fun a b => decide (key a = key b)) hl
  rw [List.getLast_of_mem_getLast? ha] at hlast
  rw [← hlast]
  exact List.getLast_mem _

theorem mem_last_stretch {left : List (List α)} {run : List α} (hs : stretches key l = left ++ [run]) {a : α}
    (ha : a ∈ l.getLast?) : a ∈ run := by
  obtain ⟨left', run', hs', har⟩ := exists_last_stretch key ha
  have hrun : run = run' := by simpa using congrArg List.getLast? (hs.symm.trans hs')
  rwa [hrun]

theorem stretches_eq_singleton (hl : l ≠ []) (h : ∀ a ∈ l, ∀ b ∈ l, key a = key b) : stretches key l = [l] := by
  apply List.splitBy_of_isChain hl
  apply List.Pairwise.isChain
  exact List.pairwise_of_forall_mem_list fun a ha b hb => decide_eq_true (h a ha b hb)

/-- How one more element changes the stretches. -/
theorem stretches_concat (key : α → β) (l : List α) (b : α) :
    (∃ left run, stretches key l = left ++ [run] ∧ (∀ a ∈ run, key a = key b) ∧
      stretches key (l ++ [b]) = left ++ [run ++ [b]]) ∨
    (∀ a ∈ l.getLast?, key a ≠ key b) ∧ stretches key (l ++ [b]) = stretches key l ++ [[b]] := by
  by_cases h : ∀ a ∈ l.getLast?, key a ≠ key b
  · exact Or.inr ⟨h, stretches_concat_new h⟩
  · left
    push Not at h
    obtain ⟨a, ha, hab⟩ := h
    obtain ⟨left, run, hs, har⟩ := exists_last_stretch key ha
    have hrun : run ∈ stretches key l := by simp [hs]
    have hkey : ∀ c ∈ run, key c = key b := fun c hc => (key_eq_of_mem_stretches hrun hc har).trans hab
    exact ⟨left, run, hs, hkey, stretches_concat_same hs hkey⟩

/-- Longer lists only prolong a stretch. -/
theorem exists_stretch_extends {run : List α} (h : run ∈ stretches key l) (l' : List α) :
    ∃ run' ∈ stretches key (l ++ l'), run <+: run' := by
  induction l' using List.reverseRecOn with
  | nil => exact ⟨run, by rwa [List.append_nil], List.prefix_rfl⟩
  | append_singleton l' b ih =>
    obtain ⟨run', hrun', hpre⟩ := ih
    rw [← List.append_assoc]
    rcases stretches_concat key (l ++ l') b with ⟨left, last, hs, _, hnew⟩ | ⟨_, hnew⟩
    · rw [hs] at hrun'
      rw [hnew]
      rcases List.mem_append.mp hrun' with hmem | hmem
      · exact ⟨run', List.mem_append_left _ hmem, hpre⟩
      · obtain rfl := List.mem_singleton.mp hmem
        exact ⟨run' ++ [b], by simp, hpre.trans (List.prefix_append _ _)⟩
    · rw [hnew]
      exact ⟨run', List.mem_append_left _ hrun', hpre⟩

/-- A window on the last `n` elements, kept by dropping the first one when it gets too long. -/
theorem rtake_concat (l : List α) (n : Nat) (x : α) :
    (if n + 1 ≤ (l.rtake n ++ [x]).length then (l.rtake n ++ [x]).tail else l.rtake n ++ [x]) = (l ++ [x]).rtake n := by
  have hwin : l.rtake n ++ [x] = (l ++ [x]).drop (l.length - n) := by
    rw [List.rtake, List.drop_append_of_le_length (Nat.sub_le l.length n)]
  rw [hwin, List.rtake, List.length_drop, List.length_append, List.length_singleton]
  by_cases hn : n ≤ l.length
  · rw [if_pos (by omega), ← List.drop_one, List.drop_drop]
    congr 1
    omega
  · rw [if_neg (by omega)]
    congr 1
    omega

end Soar.Library
