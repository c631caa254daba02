import Mathlib.Algebra.BigOperators.Group.Finset.Basic
import Mathlib.Algebra.Order.BigOperators.Group.Finset
import Mathlib.Data.Fintype.Prod
import Mathlib.Tactic.SplitIfs
import Soar.Library.FairSchedule

/-! Blocks of threads that write the shared memory of their block, meet at a barrier, and copy from it to an
output memory of all blocks. -/
namespace Soar.Library

/-- What each thread writes to the shared memory before the barrier, and what it copies after it. -/
structure BarrierKernel (Block Thread Cell Addr Val : Type) where
  loads : Block → Thread → List (Cell × Val)
  stores : Block → Thread → List (Cell × Addr)

namespace BarrierKernel

variable {Block Thread Cell Addr Val : Type} (K : BarrierKernel Block Thread Cell Addr Val)

/-- The memories, and how many steps each thread has taken. -/
structure State (Block Thread Cell Addr Val : Type) where
  shared : Block → Cell → Val
  out : Addr → Val
  pc : Block → Thread → Nat

/-- Every thread of the block has come to the barrier. -/
def Open (s : State Block Thread Cell Addr Val) (b : Block) : Prop := ∀ t, (K.loads b t).length ≤ s.pc b t

/-- The loads, the barrier and the stores. -/
def total (b : Block) (t : Thread) : Nat := (K.loads b t).length + 1 + (K.stores b t).length

def Finished (s : State Block Thread Cell Addr Val) : Prop := ∀ b t, K.total b t ≤ s.pc b t

instance [Fintype Thread] (s : State Block Thread Cell Addr Val) (b : Block) : Decidable (K.Open s b) := by
  unfold Open
  infer_instance

section Step

variable [DecidableEq Block] [DecidableEq Thread] [DecidableEq Cell] [DecidableEq Addr]

def advance (pc : Block → Thread → Nat) (b : Block) (t : Thread) : Block → Thread → Nat :=
  Function.update pc b (Function.update (pc b) t (pc b t + 1))

/-- The next step of a thread; at the barrier it waits for the threads of its block. -/
def step [Fintype Thread] (s : State Block Thread Cell Addr Val) (turn : Block × Thread) :
    State Block Thread Cell Addr Val :=
  let (b, t) := turn
  match (K.loads b t)[s.pc b t]? with
  | some (c, v) =>
    { s with shared := Function.update s.shared b (Function.update (s.shared b) c v), pc := advance s.pc b t }
  | none =>
    if s.pc b t = (K.loads b t).length then
      if K.Open s b then { s with pc := advance s.pc b t } else s
    else
      match (K.stores b t)[s.pc b t - ((K.loads b t).length + 1)]? with
      | some (c, a) => { s with out := Function.update s.out a (s.shared b c), pc := advance s.pc b t }
      | none => s

theorem advance_self (pc : Block → Thread → Nat) (b : Block) (t : Thread) : advance pc b t b t = pc b t + 1 := by
  simp [advance]

theorem advance_of_ne {pc : Block → Thread → Nat} {b b' : Block} {t t' : Thread} (h : (b', t') ≠ (b, t)) :
    advance pc b t b' t' = pc b' t' := by
  by_cases hb : b' = b
  · subst hb
    have ht : t' ≠ t := fun ht => h (by rw [ht])
    simp [advance, ht]
  · simp [advance, hb]

theorem le_advance (pc : Block → Thread → Nat) (b : Block) (t : Thread) (b' : Block) (t' : Thread) :
    pc b' t' ≤ advance pc b t b' t' := by
  by_cases h : (b', t') = (b, t)
  · obtain ⟨rfl, rfl⟩ := Prod.mk.inj h
    rw [advance_self]
    exact Nat.le_succ _
  · rw [advance_of_ne h]

/-- What a step does: it loads, passes the barrier, stores, or changes nothing. -/
theorem step_cases [Fintype Thread] (s : State Block Thread Cell Addr Val) (b : Block) (t : Thread) :
    (∃ c v, (K.loads b t)[s.pc b t]? = some (c, v) ∧ K.step s (b, t) =
      { s with shared := Function.update s.shared b (Function.update (s.shared b) c v), pc := advance s.pc b t }) ∨
    (s.pc b t = (K.loads b t).length ∧ K.Open s b ∧ K.step s (b, t) = { s with pc := advance s.pc b t }) ∨
    (∃ c a, (K.loads b t).length < s.pc b t ∧
      (K.stores b t)[s.pc b t - ((K.loads b t).length + 1)]? = some (c, a) ∧ K.step s (b, t) =
        { s with out := Function.update s.out a (s.shared b c), pc := advance s.pc b t }) ∨
    K.step s (b, t) = s ∧ (s.pc b t = (K.loads b t).length ∧ ¬ K.Open s b ∨ K.total b t ≤ s.pc b t) := by
  cases hload : (K.loads b t)[s.pc b t]? with
  | some load =>
    apply Or.inl
    refine ⟨load.1, load.2, rfl, ?_⟩
    simp only [step, hload]
  | none =>
    have hle : (K.loads b t).length ≤ s.pc b t := List.getElem?_eq_none_iff.mp hload
    by_cases hat : s.pc b t = (K.loads b t).length
    · by_cases hopen : K.Open s b
      · apply Or.inr ∘ Or.inl
        refine ⟨hat, hopen, ?_⟩
        simp only [step, hload]
        rw [if_pos hat, if_pos hopen]
      · apply Or.inr ∘ Or.inr ∘ Or.inr
        refine ⟨?_, .inl ⟨hat, hopen⟩⟩
        simp only [step, hload]
        rw [if_pos hat, if_neg hopen]
    · cases hstore : (K.stores b t)[s.pc b t - ((K.loads b t).length + 1)]? with
      | some store =>
        apply Or.inr ∘ Or.inr ∘ Or.inl
        refine ⟨store.1, store.2, by omega, rfl, ?_⟩
        simp only [step, hload, hstore]
        rw [if_neg hat]
      | none =>
        have hlen := List.getElem?_eq_none_iff.mp hstore
        apply Or.inr ∘ Or.inr ∘ Or.inr
        refine ⟨?_, .inr (by rw [total]; omega)⟩
        simp only [step, hload, hstore]
        rw [if_neg hat]

end Step

/-- Some thread of the block loads `v` into the cell. -/
def Loaded (b : Block) (c : Cell) (v : Val) : Prop := ∃ t, (c, v) ∈ K.loads b t

/-- Some thread stores at the address a cell of its block into which `v` is loaded. -/
def Stored (a : Addr) (v : Val) : Prop := ∃ b t c, (c, a) ∈ K.stores b t ∧ K.Loaded b c v

/-- The threads do not depend on their order: what is written twice is written with one value, and what is
copied has been loaded. -/
structure RaceFree : Prop where
  loads : ∀ {b c v v'}, K.Loaded b c v → K.Loaded b c v' → v = v'
  stores : ∀ {a v v'}, K.Stored a v → K.Stored a v' → v = v'
  covered : ∀ {b t c a}, (c, a) ∈ K.stores b t → ∃ v, K.Loaded b c v

/-- What holds in every state of a run from the output `out`. -/
structure Inv (out : Addr → Val) (s : State Block Thread Cell Addr Val) : Prop where
  shared : ∀ b t k c v, k < s.pc b t → (K.loads b t)[k]? = some (c, v) → s.shared b c = v
  barrier : ∀ b t, (K.loads b t).length < s.pc b t → K.Open s b
  stored : ∀ b t k c a v, (K.loads b t).length + 1 + k < s.pc b t → (K.stores b t)[k]? = some (c, a) →
    K.Loaded b c v → s.out a = v
  untouched : ∀ a, (∀ v, ¬ K.Stored a v) → s.out a = out a

/-- The invariant holds at the launch, whatever the memories hold. -/
theorem Inv.start (shared : Block → Cell → Val) (out : Addr → Val) : K.Inv out ⟨shared, out, fun _ _ => 0⟩ where
  shared := by
    intro b t k c v hk
    exact absurd hk (Nat.not_lt_zero k)
  barrier := by
    intro b t hlt
    exact absurd hlt (Nat.not_lt_zero _)
  stored := by
    intro b t k c a v hlt
    exact absurd hlt (Nat.not_lt_zero _)
  untouched := by
    intro a _
    rfl

/-- Behind the barrier the shared memory holds what has been loaded. -/
theorem Inv.shared_of_open {K : BarrierKernel Block Thread Cell Addr Val} {out : Addr → Val}
    {s : State Block Thread Cell Addr Val} (h : K.Inv out s) {b : Block} (hopen : K.Open s b) {c : Cell} {v : Val}
    (hc : K.Loaded b c v) : s.shared b c = v := by
  obtain ⟨t, hmem⟩ := hc
  obtain ⟨k, hk⟩ := List.mem_iff_getElem?.mp hmem
  have hlt : k < (K.loads b t).length := (List.getElem?_eq_some_iff.mp hk).1
  exact h.shared b t k c v (hlt.trans_le (hopen t)) hk

/-- The output of a finished run: what the threads store, and elsewhere what was there before. -/
theorem Inv.out_of_finished {K : BarrierKernel Block Thread Cell Addr Val} {out : Addr → Val}
    {s : State Block Thread Cell Addr Val} (h : K.Inv out s) (hdone : K.Finished s) (a : Addr) :
    (∀ v, K.Stored a v → s.out a = v) ∧ ((∀ v, ¬ K.Stored a v) → s.out a = out a) := by
  refine ⟨?_, h.untouched a⟩
  rintro v ⟨b, t, c, hmem, hloaded⟩
  obtain ⟨k, hk⟩ := List.mem_iff_getElem?.mp hmem
  have hlt : k < (K.stores b t).length := (List.getElem?_eq_some_iff.mp hk).1
  have hpc := hdone b t
  rw [total] at hpc
  exact h.stored b t k c a v (by omega) hk hloaded

variable {K} [DecidableEq Block] [DecidableEq Thread] [DecidableEq Cell] [DecidableEq Addr] {out : Addr → Val}
  {s : State Block Thread Cell Addr Val}

private theorem lt_advance {pc : Block → Thread → Nat} {b b' : Block} {t t' : Thread} {k : Nat}
    (h : k < advance pc b t b' t') : k < pc b' t' ∨ k = pc b t ∧ b' = b ∧ t' = t := by
  by_cases hself : (b', t') = (b, t)
  · obtain ⟨rfl, rfl⟩ := Prod.mk.inj hself
    rw [advance_self] at h
    rcases Nat.lt_succ_iff_lt_or_eq.mp h with hlt | heq
    · exact .inl hlt
    · exact .inr ⟨heq, rfl, rfl⟩
  · rw [advance_of_ne hself] at h
    exact .inl h

omit [DecidableEq Cell] [DecidableEq Addr] in
private theorem open_advance {shared : Block → Cell → Val} {out' : Addr → Val} {b b' : Block} {t : Thread}
    (h : K.Open s b') : K.Open (⟨shared, out', advance s.pc b t⟩ : State Block Thread Cell Addr Val) b' :=
  fun t' => (h t').trans (le_advance s.pc b t b' t')

/-- A step of a thread keeps the invariant, without races. -/
theorem Inv.step [Fintype Thread] (hfree : K.RaceFree) (h : K.Inv out s) (turn : Block × Thread) :
    K.Inv out (K.step s turn) := by
  obtain ⟨b, t⟩ := turn
  rcases K.step_cases s b t with ⟨c, v, hload, heq⟩ | ⟨hat, hopen, heq⟩ | ⟨c, a, hpast, hstore, heq⟩ | ⟨heq, -⟩
  · have hlt : s.pc b t < (K.loads b t).length := (List.getElem?_eq_some_iff.mp hload).1
    rw [heq]
    constructor
    · intro b' t' k c' v' hk hget
      dsimp only at hk ⊢
      by_cases hcell : b' = b ∧ c' = c
      · obtain ⟨rfl, rfl⟩ := hcell
        rw [Function.update_self, Function.update_self]
        exact hfree.loads ⟨t, List.mem_of_getElem? hload⟩ ⟨t', List.mem_of_getElem? hget⟩
      · have hold : Function.update s.shared b (Function.update (s.shared b) c v) b' c' = s.shared b' c' := by
          by_cases hb : b' = b
          · subst hb
            rw [Function.update_self, Function.update_of_ne fun hc => hcell ⟨rfl, hc⟩]
          · rw [Function.update_of_ne hb]
        rw [hold]
        rcases lt_advance hk with hk | ⟨rfl, rfl, rfl⟩
        · exact h.shared b' t' k c' v' hk hget
        · rw [hload] at hget
          cases hget
          exact absurd ⟨rfl, rfl⟩ hcell
    · intro b' t' hpast
      dsimp only at hpast
      rcases lt_advance hpast with hpast | ⟨heq', rfl, rfl⟩
      · exact open_advance (h.barrier b' t' hpast)
      · omega
    · intro b' t' k c' a' v' hpast hget hloaded
      dsimp only at hpast ⊢
      rcases lt_advance hpast with hpast | ⟨heq', rfl, rfl⟩
      · exact h.stored b' t' k c' a' v' hpast hget hloaded
      · omega
    · exact h.untouched
  · rw [heq]
    constructor
    · intro b' t' k c' v' hk hget
      dsimp only at hk ⊢
      rcases lt_advance hk with hk | ⟨rfl, rfl, rfl⟩
      · exact h.shared b' t' k c' v' hk hget
      · have := (List.getElem?_eq_some_iff.mp hget).1
        omega
    · intro b' t' hpast
      dsimp only at hpast
      rcases lt_advance hpast with hpast | ⟨-, rfl, rfl⟩
      · exact open_advance (h.barrier b' t' hpast)
      · exact open_advance hopen
    · intro b' t' k c' a' v' hpast hget hloaded
      dsimp only at hpast ⊢
      rcases lt_advance hpast with hpast | ⟨heq', rfl, rfl⟩
      · exact h.stored b' t' k c' a' v' hpast hget hloaded
      · omega
    · exact h.untouched
  · have hopen := h.barrier b t hpast
    -- the cell that is copied holds what was loaded into it
    obtain ⟨v, hv⟩ := hfree.covered (List.mem_of_getElem? hstore)
    have hshared := h.shared_of_open hopen hv
    have hstored : K.Stored a v := ⟨b, t, c, List.mem_of_getElem? hstore, hv⟩
    rw [heq]
    constructor
    · intro b' t' k c' v' hk hget
      dsimp only at hk ⊢
      rcases lt_advance hk with hk | ⟨rfl, rfl, rfl⟩
      · exact h.shared b' t' k c' v' hk hget
      · have := (List.getElem?_eq_some_iff.mp hget).1
        omega
    · intro b' t' hpast'
      dsimp only at hpast'
      rcases lt_advance hpast' with hpast' | ⟨-, rfl, rfl⟩
      · exact open_advance (h.barrier b' t' hpast')
      · exact open_advance hopen
    · intro b' t' k c' a' v' hpast' hget hloaded
      dsimp only at hpast' ⊢
      by_cases ha : a' = a
      · subst ha
        rw [Function.update_self, hshared]
        exact hfree.stores hstored ⟨b', t', c', List.mem_of_getElem? hget, hloaded⟩
      · rw [Function.update_of_ne ha]
        rcases lt_advance hpast' with hpast' | ⟨heq', rfl, rfl⟩
        · exact h.stored b' t' k c' a' v' hpast' hget hloaded
        · have hk : s.pc b' t' - ((K.loads b' t').length + 1) = k := by omega
          rw [hk, hget] at hstore
          cases hstore
          exact absurd rfl ha
    · intro a' hnot
      dsimp only
      have ha : a' ≠ a := by
        rintro rfl
        exact hnot v hstored
      rw [Function.update_of_ne ha]
      exact h.untouched a' hnot
  · rw [heq]
    exact h

section Progress

variable [Fintype Thread]

/-- A finished state stays as it is. -/
theorem Finished.step_eq (h : K.Finished s) (turn : Block × Thread) : K.step s turn = s := by
  obtain ⟨b, t⟩ := turn
  have hdone := h b t
  rw [total] at hdone
  rcases K.step_cases s b t with ⟨c, v, hload, -⟩ | ⟨hat, -, -⟩ | ⟨c, a, -, hstore, -⟩ | ⟨heq, -⟩
  · have := (List.getElem?_eq_some_iff.mp hload).1
    omega
  · omega
  · have := (List.getElem?_eq_some_iff.mp hstore).1
    omega
  · exact heq

private theorem step_ne_of_pc {turn : Block × Thread} {b : Block} {t : Thread}
    (h : (K.step s turn).pc b t ≠ s.pc b t) : K.step s turn ≠ s := by
  intro heq
  rw [heq] at h
  exact h rfl

/-- A thread that has steps left moves, unless it waits for a thread of its block that moves. -/
theorem exists_move (s : State Block Thread Cell Addr Val) (h : ¬ K.Finished s) : ∃ turn, K.step s turn ≠ s := by
  rw [Finished] at h
  push Not at h
  obtain ⟨b, t, hlt⟩ := h
  have hmoves {t' : Thread} {s' : State Block Thread Cell Addr Val} (heq : K.step s (b, t') = s')
      (hpc : s'.pc = advance s.pc b t') : K.step s (b, t') ≠ s := by
    apply step_ne_of_pc (b := b) (t := t')
    rw [heq, hpc, advance_self]
    exact Nat.succ_ne_self _
  rcases K.step_cases s b t with ⟨c, v, -, heq⟩ | ⟨-, -, heq⟩ | ⟨c, a, -, -, heq⟩ | ⟨-, ⟨-, hclosed⟩ | hdone⟩
  · exact ⟨(b, t), hmoves heq rfl⟩
  · exact ⟨(b, t), hmoves heq rfl⟩
  · exact ⟨(b, t), hmoves heq rfl⟩
  · rw [Open] at hclosed
    push Not at hclosed
    obtain ⟨t', ht'⟩ := hclosed
    refine ⟨(b, t'), ?_⟩
    rcases K.step_cases s b t' with ⟨c, v, -, heq⟩ | ⟨hat, -, -⟩ | ⟨c, a, hpast, -, -⟩ | ⟨-, ⟨hat, -⟩ | hdone⟩
    · exact hmoves heq rfl
    · omega
    · omega
    · omega
    · rw [total] at hdone
      omega
  · exact absurd hdone (Nat.not_le.mpr hlt)

variable [Fintype Block]

/-- How many steps are left. -/
def remaining (K : BarrierKernel Block Thread Cell Addr Val) (s : State Block Thread Cell Addr Val) : Nat :=
  ∑ turn : Block × Thread, (K.total turn.1 turn.2 - s.pc turn.1 turn.2)

/-- A step changes nothing, or there is one step less left. -/
theorem step_eq_or_remaining_lt (s : State Block Thread Cell Addr Val) (turn : Block × Thread) :
    K.step s turn = s ∨ K.remaining (K.step s turn) < K.remaining s := by
  obtain ⟨b, t⟩ := turn
  have hlower {shared : Block → Cell → Val} {out' : Addr → Val} (hlt : s.pc b t < K.total b t) :
      K.remaining ⟨shared, out', advance s.pc b t⟩ < K.remaining s := by
    apply Finset.sum_lt_sum
    · intro turn _
      exact Nat.sub_le_sub_left (le_advance s.pc b t turn.1 turn.2) _
    · refine ⟨(b, t), Finset.mem_univ _, ?_⟩
      dsimp only
      rw [advance_self]
      omega
  rcases K.step_cases s b t with ⟨c, v, hload, heq⟩ | ⟨hat, -, heq⟩ | ⟨c, a, hpast, hstore, heq⟩ | ⟨heq, -⟩
  · have hlt := (List.getElem?_eq_some_iff.mp hload).1
    rw [heq]
    exact .inr (hlower (by rw [total]; omega))
  · rw [heq]
    exact .inr (hlower (by rw [total]; omega))
  · have hlt := (List.getElem?_eq_some_iff.mp hstore).1
    rw [heq]
    exact .inr (hlower (by rw [total]; omega))
  · exact .inl heq

/-- A run in which every thread takes turns for ever finishes. -/
theorem finishes {turns : Nat → Block × Thread} (hfair : FairTurns id turns)
    (state : Nat → State Block Thread Cell Addr Val) (hstate : ∀ k, state (k + 1) = K.step (state k) (turns k)) :
    ∃ k, K.Finished (state k) := by
  obtain ⟨k, -, hk⟩ := exists_goal_of_fairTurns (fun _ => True) K.Finished K.remaining (fun _ _ _ => trivial)
    (fun s turn _ _ => step_eq_or_remaining_lt s turn)
    (fun s _ hnot => by
      obtain ⟨turn, hmove⟩ := exists_move s hnot
      refine ⟨turn, ?_⟩
      rintro _ rfl
      exact hmove)
    hfair state hstate (k := 0) trivial
  exact ⟨k, hk⟩

/-- A run in which every thread takes turns for ever finishes, and then the output holds what the threads store, and
elsewhere what was there before. -/
theorem eventually_out (hfree : K.RaceFree) (shared : Block → Cell → Val) (out : Addr → Val)
    {turns : Nat → Block × Thread} (hfair : FairTurns id turns) (state : Nat → State Block Thread Cell Addr Val)
    (hzero : state 0 = ⟨shared, out, fun _ _ => 0⟩) (hstate : ∀ k, state (k + 1) = K.step (state k) (turns k)) :
    ∃ k, ∀ k' ≥ k, K.Finished (state k') ∧ ∀ a, (∀ v, K.Stored a v → (state k').out a = v) ∧
      ((∀ v, ¬ K.Stored a v) → (state k').out a = out a) := by
  have hinv (k : Nat) : K.Inv out (state k) := by
    induction k with
    | zero => exact hzero ▸ Inv.start K shared out
    | succ k ih => exact hstate k ▸ ih.step hfree (turns k)
  obtain ⟨k, hk⟩ := finishes hfair state hstate
  refine ⟨k, ?_⟩
  intro k' hle
  have hdone : K.Finished (state k') := by
    induction k', hle using Nat.le_induction with
    | base => exact hk
    | succ n _ ih => rw [hstate n, ih.step_eq]; exact ih
  exact ⟨hdone, (hinv k').out_of_finished hdone⟩

end Progress

end BarrierKernel

end Soar.Library
