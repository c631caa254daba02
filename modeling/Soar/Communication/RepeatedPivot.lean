import Soar.Communication.Aliasing

/-! The elimination of unit columns among which one column `P`, first nonzero in row `i₀`,
stands twice: it reaches full rank, but combination `i₀` is a multiple of column `i₀` alone. -/
namespace Soar.Communication
open Soar.Library Soar.Library.ColumnReduction Finset

variable {nin i₀ i : Nat} {P : Nat → SymbolType}

/-- Unit columns with `P` in the places `i₀` and `i₀ + 1`. -/
def repeatedColumn (i₀ : Nat) (P : Nat → SymbolType) (k r : Nat) : SymbolType :=
  if k < i₀ then if k = r then 1 else 0 else if k ≤ i₀ + 1 then P r else if k - 1 = r then 1 else 0

/-- The state before iteration `i`. -/
structure RepeatedInv (nin i₀ : Nat) (P : Nat → SymbolType) (i : Nat) (s : Mat × Mat) : Prop where
  invDistinct : s.2.Distinct (nin + 1)
  repeated : s.1.ptr i₀ = s.1.ptr (i₀ + 1) ∨ i₀ < i
  zero : ∀ k < i, ∀ r < nin, i ≤ r → s.1.get k r = 0
  before : i ≤ i₀ → ∀ k < nin + 1, i ≤ k → ∀ r < nin, s.1.get k r = repeatedColumn i₀ P k r
  after : i₀ < i → ∀ r < nin, i ≤ r → s.1.get i r = 0
  rest : i₀ < i → ∀ k < nin + 1, i < k → ∀ r < nin, i ≤ r → s.1.get k r = if k - 1 = r then 1 else 0
  combination : ∀ l < nin + 1, s.2.get i₀ l = if l = i₀ then if i ≤ i₀ then 1 else 1 / P i₀ else 0

private theorem findNonZeroCol_eq {mat : Mat} {col p : Nat} (hip : i ≤ p) (hp : p < col) (hne : mat.get p i ≠ 0)
    (hz : ∀ k, i ≤ k → k < p → mat.get k i = 0) : findNonZeroCol mat i col = some p := by
  rw [findNonZeroCol, List.find?_range'_eq_some]
  refine ⟨by simpa using hne, List.mem_range'_1.mpr (by omega), fun j hij hjp => ?_⟩
  simp [hz j hij hjp]

private theorem repeatedColumn_of_lt {k r : Nat} (h : k < i₀) : repeatedColumn i₀ P k r = if k = r then 1 else 0 :=
  if_pos h

private theorem repeatedColumn_repeated {k r : Nat} (h : i₀ ≤ k) (h' : k ≤ i₀ + 1) : repeatedColumn i₀ P k r = P r := by
  rw [repeatedColumn, if_neg (by omega), if_pos h']

private theorem repeatedColumn_of_gt {k r : Nat} (h : i₀ + 1 < k) :
    repeatedColumn i₀ P k r = if k - 1 = r then 1 else 0 := by
  rw [repeatedColumn, if_neg (by omega), if_neg (by omega)]

private theorem before_step {s : Mat × Mat} (h : RepeatedInv nin i₀ P i s) (hi : i < i₀) (h₀ : i₀ < nin)
    (hfirst : ∀ r < i₀, P r = 0) :
    findNonZeroCol s.1 i (nin + 1) = some i ∧ RepeatedInv nin i₀ P (i + 1) (pivotStep (nin + 1) nin i i s) := by
  obtain ⟨mat, invMat⟩ := s
  have hcol := h.before hi.le
  have hone : mat.get i i = 1 := by rw [hcol i (by omega) le_rfl i (by omega), repeatedColumn_of_lt hi, if_pos rfl]
  have hzero (k : Nat) (hk : k < nin + 1) (hki : k ≠ i) : mat.get k i = 0 := by
    rcases lt_or_gt_of_ne hki with hlt | hgt
    · exact h.zero k hlt i (by omega) le_rfl
    · rw [hcol k hk hgt.le i (by omega), repeatedColumn]
      split_ifs <;> first | rfl | omega | exact hfirst i hi
  have hne : mat.get i i ≠ 0 := by rw [hone]; exact one_ne_zero
  obtain ⟨hf, hz⟩ := pivotStep_frame nin h.invDistinct (by omega) le_rfl (show i < nin + 1 by omega) hne
  have hz := hz fun k hk hk' r hr hir => by
    have hki : k = i := by_contra fun hc => hk' (hzero k hk hc)
    rw [hki, hcol i (by omega) le_rfl r hr, repeatedColumn_of_lt hi, if_neg (by omega)]
  generalize pivotStep (nin + 1) nin i i (mat, invMat) = s at hf hz ⊢
  obtain ⟨hptr, hinv, hpiv, hkeep⟩ := hf
  simp only [Equiv.swap_self, Equiv.refl_apply] at hkeep hz hptr
  refine ⟨findNonZeroCol_eq le_rfl (by omega) hne fun k hik hki => absurd hik (by omega), hinv, ?_, ?_, ?_, ?_, ?_, ?_⟩
  · rw [hptr]
    exact h.repeated.imp id (fun hc => by omega)
  · intro k hk r hr hir
    by_cases hki : k = i
    · subst hki
      exact hz k (by omega) hne r hr hir
    · rw [(hkeep k (by omega) (hzero k (by omega) hki)).1]
      exact h.zero k (by omega) r hr (by omega)
  · intro _ k hk hik r hr
    rw [(hkeep k hk (hzero k hk (by omega))).1]
    exact hcol k hk (by omega) r hr
  · intro hc
    omega
  · intro hc
    omega
  · intro l hl
    rw [(hkeep i₀ (by omega) (hzero i₀ (by omega) (by omega))).2, h.combination l hl, if_pos hi.le,
      if_pos (show i + 1 ≤ i₀ from hi)]

private theorem repeated_step {s : Mat × Mat} (h : RepeatedInv nin i₀ P i₀ s) (h₀ : i₀ < nin) (hP : P i₀ ≠ 0) :
    findNonZeroCol s.1 i₀ (nin + 1) = some i₀ ∧ RepeatedInv nin i₀ P (i₀ + 1) (pivotStep (nin + 1) nin i₀ i₀ s) := by
  obtain ⟨mat, invMat⟩ := s
  have hcol := h.before le_rfl
  have hpiv : mat.get i₀ i₀ = P i₀ := by
    rw [hcol i₀ (by omega) le_rfl i₀ h₀, repeatedColumn_repeated le_rfl (Nat.le_succ _)]
  have hzero (k : Nat) (hk : k < nin + 1) (hki : k ≠ i₀) (hki' : k ≠ i₀ + 1) : mat.get k i₀ = 0 := by
    rcases lt_or_gt_of_ne hki with hlt | hgt
    · exact h.zero k hlt i₀ h₀ le_rfl
    · rw [hcol k hk hgt.le i₀ h₀, repeatedColumn_of_gt (by omega), if_neg (by omega)]
  have hne : mat.get i₀ i₀ ≠ 0 := by rwa [hpiv]
  have hal : mat.ptr i₀ = mat.ptr (i₀ + 1) := h.repeated.resolve_right (lt_irrefl _)
  obtain ⟨⟨hptr, hinv, hinvPiv, hkeep⟩, -⟩ := pivotStep_frame nin h.invDistinct h₀ le_rfl
      (show i₀ < nin + 1 by omega) hne
  have hclear := pivotStep_alias invMat h₀ hne (show i₀ + 1 < nin + 1 by omega) (Nat.succ_ne_self i₀)
    (by rw [Equiv.swap_self, Equiv.refl_apply]; exact hal.symm)
  generalize pivotStep (nin + 1) nin i₀ i₀ (mat, invMat) = s at hptr hinv hinvPiv hkeep hclear ⊢
  simp only [Equiv.swap_self, Equiv.refl_apply] at hkeep hptr
  have hsecond (r : Nat) : s.1.get (i₀ + 1) r = s.1.get i₀ r := by
    rw [Mat.get, Mat.get, hptr]
    exact congrArg (fun b => s.1.buf b r) hal.symm
  refine ⟨findNonZeroCol_eq le_rfl (by omega) hne fun k hik hki => absurd hik (by omega), hinv,
      Or.inr (Nat.lt_succ_self _),
    ?_, ?_, ?_, ?_, ?_⟩
  · intro k hk r hr hir
    by_cases hki : k = i₀
    · subst hki
      exact hclear r hr (by omega)
    · rw [(hkeep k (by omega) (hzero k (by omega) hki (by omega))).1]
      exact h.zero k (by omega) r hr (by omega)
  · intro hc
    omega
  · intro _ r hr hir
    rw [hsecond]
    exact hclear r hr (by omega)
  · intro _ k hk hik r hr hir
    rw [(hkeep k hk (hzero k hk (by omega) (by omega))).1, hcol k hk (by omega) r hr, repeatedColumn_of_gt hik]
  · intro l hl
    rw [hinvPiv l hl, hpiv, h.combination l hl, if_pos le_rfl, if_neg (show ¬ i₀ + 1 ≤ i₀ by omega)]
    split_ifs
    · rfl
    · exact zero_div _

private theorem after_step {s : Mat × Mat} (h : RepeatedInv nin i₀ P i s) (hi : i₀ < i) (hin : i < nin) :
    findNonZeroCol s.1 i (nin + 1) = some (i + 1) ∧
      RepeatedInv nin i₀ P (i + 1) (pivotStep (nin + 1) nin i (i + 1) s) := by
  obtain ⟨mat, invMat⟩ := s
  have hrest := h.rest hi
  have hone : mat.get (i + 1) i = 1 := by
    rw [hrest (i + 1) (by omega) (Nat.lt_succ_self i) i hin le_rfl, Nat.add_sub_cancel, if_pos rfl]
  have hcur : mat.get i i = 0 := h.after hi i hin le_rfl
  have hzero (k : Nat) (hk : k < nin + 1) (hki : k ≠ i + 1) : mat.get k i = 0 := by
    rcases lt_trichotomy k i with hlt | rfl | hgt
    · exact h.zero k hlt i hin le_rfl
    · exact hcur
    · rw [hrest k hk hgt i hin le_rfl, if_neg (by omega)]
  have hne : mat.get (i + 1) i ≠ 0 := by rw [hone]; exact one_ne_zero
  obtain ⟨⟨hptr, hinv, hinvPiv, hkeep⟩, hz⟩ := pivotStep_frame nin h.invDistinct hin (Nat.le_succ i)
    (show i + 1 < nin + 1 by omega) hne
  have hz := hz fun k hk hk' r hr hir => by
    have hki : k = i + 1 := by_contra fun hc => hk' (hzero k hk hc)
    rw [hki, hrest (i + 1) (by omega) (Nat.lt_succ_self i) r hr hir.le, if_neg (by omega)]
  generalize pivotStep (nin + 1) nin i (i + 1) (mat, invMat) = s at hptr hinv hinvPiv hkeep hz ⊢
  have hold (k : Nat) (hk : k < nin + 1) (hki : k ≠ i) (hki' : k ≠ i + 1) :
      s.1.get k = mat.get k ∧ s.2.get k = invMat.get k := by
    have hs : Equiv.swap (i + 1) i k = k := Equiv.swap_apply_of_ne_of_ne hki' hki
    have := hkeep k hk (by rw [hs]; exact hzero k hk hki')
    rwa [hs] at this
  refine ⟨findNonZeroCol_eq (Nat.le_succ i) (by omega) hne fun k hik hki => ?_, hinv, Or.inr (by omega), ?_, ?_, ?_,
      ?_, ?_⟩
  · rwa [show k = i by omega]
  · intro k hk r hr hir
    by_cases hki : k = i
    · subst hki
      exact hz k (by omega) (by rwa [Equiv.swap_apply_right]) r hr hir
    · rw [(hold k (by omega) hki (by omega)).1]
      exact h.zero k (by omega) r hr (by omega)
  · intro hc
    omega
  · intro _ r hr hir
    rw [(hkeep (i + 1) (by omega) (by rwa [Equiv.swap_apply_left])).1, Equiv.swap_apply_left]
    exact h.after hi r hr (by omega)
  · intro _ k hk hik r hr hir
    rw [(hold k hk (by omega) (by omega)).1]
    exact hrest k hk (by omega) r hr (by omega)
  · intro l hl
    rw [(hold i₀ (by omega) (by omega) (by omega)).2, h.combination l hl, if_neg (show ¬ i ≤ i₀ by omega),
      if_neg (show ¬ i + 1 ≤ i₀ by omega)]

private theorem repeated_run (left i : Nat) (s : Mat × Mat) (h : RepeatedInv nin i₀ P i s) (hi : i + left = nin)
    (h₀ : i₀ < nin) (hP : P i₀ ≠ 0) (hfirst : ∀ r < i₀, P r = 0) :
    (eliminateFrom (nin + 1) nin left i s).1 = nin ∧
      RepeatedInv nin i₀ P nin (eliminateFrom (nin + 1) nin left i s).2 := by
  induction left generalizing i s with
  | zero =>
    have he : i = nin := by omega
    subst he
    exact ⟨rfl, h⟩
  | succ left ih =>
    have hstep : ∃ p, findNonZeroCol s.1 i (nin + 1) = some p ∧
        RepeatedInv nin i₀ P (i + 1) (pivotStep (nin + 1) nin i p s) := by
      rcases lt_trichotomy i i₀ with hlt | rfl | hgt
      · exact ⟨i, before_step h hlt h₀ hfirst⟩
      · exact ⟨i, repeated_step h h₀ hP⟩
      · exact ⟨i + 1, after_step h hgt (by omega)⟩
    obtain ⟨p, hp, hs⟩ := hstep
    rw [eliminateFrom, hp]
    exact ih (i + 1) _ hs (by omega)

/-- The elimination accepts the repeated pivot and leaves its combination unreduced. -/
theorem gaussianElimination_repeated (mat : Mat) (h₀ : i₀ < nin) (hP : P i₀ ≠ 0) (hfirst : ∀ r < i₀, P r = 0)
    (hptr : mat.ptr i₀ = mat.ptr (i₀ + 1))
    (hcol : ∀ k < nin + 1, ∀ r < nin, mat.get k r = repeatedColumn i₀ P k r) :
    let r := gaussianElimination mat (newIdentityMat (nin + 1)) (nin + 1) nin
    r.1 = nin ∧ ∀ l < nin + 1, r.2.2.get i₀ l = if l = i₀ then 1 / P i₀ else 0 := by
  have h0 : RepeatedInv nin i₀ P 0 (mat, newIdentityMat (nin + 1)) := by
    refine ⟨fun _ _ _ _ he => he, Or.inl hptr, fun k hk => absurd hk (by omega), fun _ k hk _ => hcol k hk,
      fun hc => absurd hc (by omega), fun hc => absurd hc (by omega), fun l _ => ?_⟩
    simp only [newIdentityMat, Mat.get, id, Nat.zero_le, if_true]
    exact if_congr eq_comm rfl rfl
  obtain ⟨hr, hinv⟩ := repeated_run nin 0 _ h0 (Nat.zero_add nin) h₀ hP hfirst
  refine ⟨hr, fun l hl => ?_⟩
  have hc := hinv.combination l hl
  rwa [if_neg (show ¬ nin ≤ i₀ by omega)] at hc

end Soar.Communication
