import Mathlib.Logic.Function.Basic
import Mathlib.Tactic.Common

/-! Counting loops over a state, with their invariant rules. -/
namespace Soar.Library

variable {σ : Type*}

/-- `for (j = lo; j < lo + n; j++)`. -/
def forUp (lo : Nat) : Nat → (Nat → σ → σ) → σ → σ
  | 0, _, s => s
  | n + 1, body, s => body (lo + n) (forUp lo n body s)

/-- `for (j = lo + n - 1; j >= lo; j--)`. -/
def forDown (lo : Nat) : Nat → (Nat → σ → σ) → σ → σ
  | 0, _, s => s
  | n + 1, body, s => forDown lo n body (body (lo + n) s)

/-- The upward loop over a body that can fail. -/
def forUpM (lo : Nat) : Nat → (Nat → σ → Option σ) → σ → Option σ
  | 0, _, s => some s
  | n + 1, body, s => (forUpM lo n body s).bind (body (lo + n))

/-- The downward loop over a body that can fail. -/
def forDownM (lo : Nat) : Nat → (Nat → σ → Option σ) → σ → Option σ
  | 0, _, s => some s
  | n + 1, body, s => (body (lo + n) s).bind (forDownM lo n body)

@[simp] theorem forUp_zero (lo : Nat) (body : Nat → σ → σ) (s : σ) : forUp lo 0 body s = s := rfl

theorem forUp_succ (lo n : Nat) (body : Nat → σ → σ) (s : σ) :
    forUp lo (n + 1) body s = body (lo + n) (forUp lo n body s) := rfl

/-- `P j` describes the state before iteration `j`. -/
theorem forUp_invariant (lo n : Nat) (body : Nat → σ → σ) (s : σ) (P : Nat → σ → Prop)
    (h0 : P lo s) (hs : ∀ j t, lo ≤ j → j < lo + n → P j t → P (j + 1) (body j t)) :
    P (lo + n) (forUp lo n body s) := by
  induction n with
  | zero => exact h0
  | succ n ih =>
    have hp := ih fun j t hl hj => hs j t hl (by omega)
    exact hs (lo + n) _ (by omega) (by omega) hp

/-- Two runs of one loop keep what its body keeps between their states. -/
theorem forUp_related (lo n : Nat) (body : Nat → σ → σ) (R : σ → σ → Prop) {s s' : σ} (h0 : R s s')
    (hs : ∀ j t t', lo ≤ j → j < lo + n → R t t' → R (body j t) (body j t')) :
    R (forUp lo n body s) (forUp lo n body s') := by
  induction n with
  | zero => exact h0
  | succ n ih =>
    have hp := ih fun j t t' hl hj => hs j t t' hl (by omega)
    exact hs (lo + n) _ _ (by omega) (by omega) hp

/-- `P j` describes the state after the iterations down to `lo + j`. -/
theorem forDown_invariant (lo n : Nat) (body : Nat → σ → σ) (s : σ) (P : Nat → σ → Prop)
    (h0 : P n s) (hs : ∀ j t, j < n → P (j + 1) t → P j (body (lo + j) t)) :
    P 0 (forDown lo n body s) := by
  induction n generalizing s with
  | zero => exact h0
  | succ n ih => exact ih _ (hs n s (by omega) h0) fun j t hj => hs j t (by omega)

/-- A loop is its first turns and then the others. -/
theorem forUp_split (lo m n : Nat) (body : Nat → σ → σ) (s : σ) :
    forUp lo (m + n) body s = forUp (lo + m) n body (forUp lo m body s) := by
  induction n with
  | zero => rfl
  | succ n ih => rw [← Nat.add_assoc, forUp_succ, forUp_succ, ih, Nat.add_assoc]

/-- If each iteration succeeds and keeps `P`, the loop succeeds. -/
theorem forUpM_invariant (lo n : Nat) (body : Nat → σ → Option σ) (s : σ) (P : Nat → σ → Prop)
    (h0 : P lo s)
    (hs : ∀ j t, lo ≤ j → j < lo + n → P j t → ∃ t', body j t = some t' ∧ P (j + 1) t') :
    ∃ t, forUpM lo n body s = some t ∧ P (lo + n) t := by
  induction n with
  | zero => exact ⟨s, rfl, h0⟩
  | succ n ih =>
    obtain ⟨t, ht, hp⟩ := ih fun j t hl hj => hs j t hl (by omega)
    obtain ⟨t', ht', hp'⟩ := hs (lo + n) t (by omega) (by omega) hp
    exact ⟨t', by rw [forUpM, ht, Option.bind_some, ht'], hp'⟩

theorem forUpM_eq_foldlM (lo n : Nat) (body : Nat → σ → Option σ) (s : σ) :
    forUpM lo n body s = (List.range n).foldlM (fun s j => body (lo + j) s) s := by
  induction n with
  | zero => rfl
  | succ n ih =>
    rw [forUpM, ih, List.range_succ, List.foldlM_append]
    apply congrArg _
    funext t
    exact (bind_pure _).symm

/-- A loop over a body that does not fail. -/
theorem forUpM_eq_some (lo n : Nat) {body : Nat → σ → Option σ} {f : Nat → σ → σ} (s : σ)
    (h : ∀ j t, lo ≤ j → j < lo + n → body j t = some (f j t)) : forUpM lo n body s = some (forUp lo n f s) := by
  induction n with
  | zero => rfl
  | succ n ih =>
    rw [forUpM, ih fun j t hl hj => h j t hl (by omega)]
    exact h (lo + n) _ (by omega) (by omega)

theorem forDownM_eq_some (lo n : Nat) {body : Nat → σ → Option σ} {f : Nat → σ → σ} (s : σ)
    (h : ∀ j t, lo ≤ j → j < lo + n → body j t = some (f j t)) : forDownM lo n body s = some (forDown lo n f s) := by
  induction n generalizing s with
  | zero => rfl
  | succ n ih =>
    rw [forDownM, h (lo + n) s (by omega) (by omega)]
    exact ih _ fun j t hl hj => h j t hl (by omega)

/-- One failing iteration that every state reaches fails the loop. -/
theorem forUpM_eq_none (lo n j : Nat) (body : Nat → σ → Option σ) (s : σ)
    (hl : lo ≤ j) (hj : j < lo + n) (h : ∀ t, body j t = none) : forUpM lo n body s = none := by
  induction n with
  | zero => omega
  | succ n ih =>
    rw [forUpM]
    by_cases he : j = lo + n
    · subst he
      cases forUpM lo n body s with
      | none => rfl
      | some t => exact h t
    · rw [ih (by omega), Option.bind_none]

/-- The upward loop that sets entry `j` of a function leaves the rest alone. -/
theorem forUp_update {β : Type*} (lo n : Nat) (f : Nat → β → β) (g : Nat → β) :
    forUp lo n (fun j g => Function.update g j (f j (g j))) g =
      fun j => if lo ≤ j ∧ j < lo + n then f j (g j) else g j := by
  induction n with
  | zero => funext j; rw [forUp_zero, if_neg (by omega)]
  | succ n ih =>
    funext j
    rw [forUp_succ, ih]
    by_cases hj : j = lo + n
    · subst hj
      dsimp only
      rw [Function.update_self, if_neg (by omega), if_pos (by omega)]
    · rw [Function.update_of_ne hj]
      exact if_congr (by omega) rfl rfl

section MapM

variable {α β γ : Type*}

/-- A loop over a list that appends what a body that can fail returns. -/
theorem mapM_eq_map {f : α → Option β} {g : α → β} {l : List α} (h : ∀ x ∈ l, f x = some (g x)) :
    l.mapM f = some (l.map g) := by
  induction l with
  | nil => rfl
  | cons x l ih =>
    rw [List.mapM_cons, h x (List.mem_cons_self ..), ih fun y hy => h y (List.mem_cons_of_mem _ hy)]
    rfl

/-- A loop over a list whose body never fails. -/
theorem exists_mapM {f : α → Option β} {l : List α} (h : ∀ x ∈ l, ∃ y, f x = some y) : ∃ ys, l.mapM f = some ys := by
  induction l with
  | nil => exact ⟨[], rfl⟩
  | cons x l ih =>
    obtain ⟨y, hy⟩ := h x (List.mem_cons_self ..)
    obtain ⟨ys, hys⟩ := ih fun z hz => h z (List.mem_cons_of_mem _ hz)
    exact ⟨y :: ys, by rw [List.mapM_cons, hy, hys]; rfl⟩

/-- A second loop over the results of a first. -/
theorem mapM_of_mapM {f : α → Option β} {h : β → Option γ} {g : α → γ} {l : List α} {ys : List β}
    (hys : l.mapM f = some ys) (hg : ∀ x ∈ l, ∀ y, f x = some y → h y = some (g x)) :
    ys.mapM h = some (l.map g) := by
  induction l generalizing ys with
  | nil =>
    cases hys
    rfl
  | cons x l ih =>
    rw [List.mapM_cons] at hys
    obtain ⟨y, hy, hys⟩ := Option.bind_eq_some_iff.mp hys
    obtain ⟨rest, hrest, hys⟩ := Option.bind_eq_some_iff.mp hys
    cases hys
    rw [List.mapM_cons, hg x (List.mem_cons_self ..) y hy, ih hrest fun z hz => hg z (List.mem_cons_of_mem _ hz)]
    rfl

/-- A loop over a list that goes with another one, element by element. -/
theorem forall₂_of_mapM {f : α → Option β} {R : α → γ → Prop} {S : β → γ → Prop} {l : List α} {ys : List β}
    {zs : List γ}
    (hys : l.mapM f = some ys) (hl : List.Forall₂ R l zs) (hS : ∀ x y z, f x = some y → R x z → S y z) :
    List.Forall₂ S ys zs := by
  induction hl generalizing ys with
  | nil =>
    cases hys
    exact .nil
  | cons hx _ ih =>
    rw [List.mapM_cons] at hys
    obtain ⟨y, hy, hys⟩ := Option.bind_eq_some_iff.mp hys
    obtain ⟨rest, hrest, hys⟩ := Option.bind_eq_some_iff.mp hys
    cases hys
    exact .cons (hS _ _ _ hy hx) (ih hrest)

/-- Every result comes from an element. -/
theorem exists_of_mem_mapM {f : α → Option β} {l : List α} {ys : List β} (hys : l.mapM f = some ys) {y : β}
    (hy : y ∈ ys) : ∃ x ∈ l, f x = some y := by
  induction l generalizing ys with
  | nil =>
    cases hys
    cases hy
  | cons x l ih =>
    rw [List.mapM_cons] at hys
    obtain ⟨z, hz, hys⟩ := Option.bind_eq_some_iff.mp hys
    obtain ⟨rest, hrest, hys⟩ := Option.bind_eq_some_iff.mp hys
    cases hys
    rcases List.mem_cons.mp hy with rfl | hy
    · exact ⟨x, List.mem_cons_self .., hz⟩
    · obtain ⟨x', hx', heq⟩ := ih hrest hy
      exact ⟨x', List.mem_cons_of_mem _ hx', heq⟩

/-- Every element has its result. -/
theorem exists_mem_mapM {f : α → Option β} {l : List α} {ys : List β} (hys : l.mapM f = some ys) {x : α}
    (hx : x ∈ l) : ∃ y ∈ ys, f x = some y := by
  induction l generalizing ys with
  | nil => cases hx
  | cons z l ih =>
    rw [List.mapM_cons] at hys
    obtain ⟨y, hy, hys⟩ := Option.bind_eq_some_iff.mp hys
    obtain ⟨rest, hrest, hys⟩ := Option.bind_eq_some_iff.mp hys
    cases hys
    rcases List.mem_cons.mp hx with rfl | hx
    · exact ⟨y, List.mem_cons_self .., hy⟩
    · obtain ⟨y', hy', heq⟩ := ih hrest hx
      exact ⟨y', List.mem_cons_of_mem _ hy', heq⟩

end MapM

end Soar.Library
