import Mathlib.Order.WellFounded

/-! Runs without end in which every party takes turns for ever. -/
namespace Soar.Library

variable {State Turn Party Rank : Type}

/-- Every party takes turns for ever. -/
def FairTurns (party : Turn → Party) (turns : ℕ → Turn) : Prop := ∀ p k, ∃ k', k ≤ k' ∧ party (turns k') = p

/-- The rule for liveness: where every step lowers a rank or changes nothing until the goal is
reached, and some party can always move, a fair run reaches the goal. -/
theorem exists_goal_of_fairTurns [Preorder Rank] [WellFoundedLT Rank] {step : State → Turn → State}
    {party : Turn → Party} (Inv goal : State → Prop) (rank : State → Rank)
    (hinv : ∀ s t, Inv s → Inv (step s t))
    (hrank : ∀ s t, Inv s → ¬ goal s → step s t = s ∨ rank (step s t) < rank s)
    (hmove : ∀ s, Inv s → ¬ goal s → ∃ p, ∀ t, party t = p → step s t ≠ s)
    {turns : ℕ → Turn} (hfair : FairTurns party turns) (state : ℕ → State)
    (hstate : ∀ k, state (k + 1) = step (state k) (turns k)) {k : ℕ} (hk : Inv (state k)) :
    ∃ k', k ≤ k' ∧ goal (state k') := by
  induction hr : rank (state k) using WellFoundedLT.induction generalizing k with
  | ind r ih =>
    subst hr
    by_cases hgoal : goal (state k)
    · exact ⟨k, le_rfl, hgoal⟩
    · obtain ⟨p, hp⟩ := hmove _ hk hgoal
      obtain ⟨k', hle, hturn⟩ := hfair p k
      obtain ⟨d, rfl⟩ := Nat.exists_eq_add_of_le hle
      -- until the turn of `p` either the state stays, or the rank falls earlier
      clear hle
      induction d generalizing k with
      | zero =>
        have hlt := (hrank _ (turns k) hk hgoal).resolve_left (hp _ hturn)
        rw [← hstate] at hlt
        obtain ⟨k', hle, hg⟩ := ih _ hlt (hstate k ▸ hinv _ _ hk) rfl
        exact ⟨k', (Nat.le_succ k).trans hle, hg⟩
      | succ d ihd =>
        have hnext : Inv (state (k + 1)) := hstate k ▸ hinv _ _ hk
        rcases hrank _ (turns k) hk hgoal with hsame | hlt
        · rw [← hstate] at hsame
          obtain ⟨k', hle, hg⟩ := ihd hnext (by rw [hsame]; exact ih) (by rw [hsame]; exact hgoal)
            (by rw [hsame]; exact hp) (by rwa [Nat.add_right_comm, Nat.add_assoc])
          exact ⟨k', (Nat.le_succ k).trans hle, hg⟩
        · rw [← hstate] at hlt
          obtain ⟨k', hle, hg⟩ := ih _ hlt hnext rfl
          exact ⟨k', (Nat.le_succ k).trans hle, hg⟩

end Soar.Library
