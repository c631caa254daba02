import Soar.Communication.Elimination

/-! `gaussianElimination` over a table that may repeat a buffer. -/
namespace Soar.Communication
open Soar.Library Soar.Library.ColumnReduction Finset

variable {col row i : Nat}

theorem clearEntry_skip {k : Nat} {s : Mat × Mat} (h : k = i ∨ s.1.get k i = 0) : clearEntry col row i k s = s := by
  obtain ⟨mat, invMat⟩ := s
  exact if_pos h

private theorem clearEntry_reduce {k : Nat} {s : Mat × Mat} (hk : k ≠ i) (h : s.1.get k i ≠ 0) :
    clearEntry col row i k s = (reduceCol s.1 i k (s.1.get k i) row,
      s.2.setCol k (addMulVec (s.2.buf (s.2.ptr k)) (s.2.buf (s.2.ptr i)) (s.1.get k i) col)) := by
  obtain ⟨mat, invMat⟩ := s
  exact if_neg fun hc => hc.elim hk h

/-- What the clearing loop leaves alone: columns with a zero in row `i`, their combinations,
and the combination of the pivot. -/
private structure ClearFrame (col i : Nat) (mat invMat : Mat) (s : Mat × Mat) : Prop where
  ptr : s.1.ptr = mat.ptr
  invPtr : s.2.ptr = invMat.ptr
  keep : ∀ k < col, mat.get k i = 0 → s.1.get k = mat.get k
  invKeep : ∀ k < col, k = i ∨ mat.get k i = 0 → s.2.get k = invMat.get k

private theorem get_setCol_of_ne {mat : Mat} {k k' : Nat} (v : Buffer) (h : mat.ptr k' ≠ mat.ptr k) :
    (mat.setCol k v).get k' = mat.get k' := by
  funext j
  rw [Mat.get_setCol, if_neg h]

private theorem clearFrame_step {n : Nat} {mat invMat : Mat} {s : Mat × Mat} (hd : invMat.Distinct col)
    (hn : n < col) (h : ClearFrame col i mat invMat s) :
    ClearFrame col i mat invMat (clearEntry col row i n s) := by
  by_cases hskip : n = i ∨ s.1.get n i = 0
  · rwa [clearEntry_skip hskip]
  · rw [not_or] at hskip
    obtain ⟨hni, hne⟩ := hskip
    have hmat : mat.get n i ≠ 0 := fun e => hne (by rw [h.keep n hn e, e])
    rw [clearEntry_reduce hni hne, reduceCol_eq]
    refine ⟨h.ptr, h.invPtr, ?_, ?_⟩
    · intro k hk hz
      have hp : s.1.ptr k ≠ s.1.ptr n := by
        intro e
        apply hne
        rw [Mat.get, ← e]
        exact (congrFun (h.keep k hk hz) i).trans hz
      rw [get_setCol_of_ne _ hp, h.keep k hk hz]
    · intro k hk hz
      have hkn : k ≠ n := by
        rintro rfl
        exact hz.elim hni hmat
      have hp : s.2.ptr k ≠ s.2.ptr n := by
        rw [h.invPtr]
        exact fun e => hkn (hd k hk n hn e)
      rw [get_setCol_of_ne _ hp, h.invKeep k hk hz]

private theorem clearFrame_run {mat invMat : Mat} (hd : invMat.Distinct col) :
    ClearFrame col i mat invMat (forUp 0 col (clearEntry col row i) (mat, invMat)) :=
  forUp_invariant 0 col (clearEntry col row i) (mat, invMat) (fun _ s => ClearFrame col i mat invMat s)
    ⟨rfl, rfl, fun _ _ _ => rfl, fun _ _ _ => rfl⟩
    (fun _ _ _ hn h => clearFrame_step hd (by omega) h)

private theorem clear_behind {mat invMat : Mat} (hi : i < col) (hpiv : mat.get i i ≠ 0) (hd : invMat.Distinct col)
    (hz : ∀ k < col, mat.get k i ≠ 0 → ∀ r < row, i < r → mat.get k r = 0) :
    ∀ k < col, mat.get k i ≠ 0 → ∀ r < row, i < r →
      (forUp 0 col (clearEntry col row i) (mat, invMat)).1.get k r = 0 := by
  have h := forUp_invariant 0 col (clearEntry col row i) (mat, invMat)
    (fun _ s => ClearFrame col i mat invMat s ∧
      ∀ k < col, mat.get k i ≠ 0 → ∀ r < row, i < r → s.1.get k r = 0)
    ⟨⟨rfl, rfl, fun _ _ _ => rfl, fun _ _ _ => rfl⟩, hz⟩
    (by
      rintro n s _ hn ⟨hf, hs⟩
      refine ⟨clearFrame_step hd (by omega) hf, fun k hk hne r hr hir => ?_⟩
      by_cases hskip : n = i ∨ s.1.get n i = 0
      · rw [clearEntry_skip hskip]
        exact hs k hk hne r hr hir
      · rw [not_or] at hskip
        rw [clearEntry_reduce hskip.1 hskip.2, reduceCol_eq, Mat.get_setCol]
        have hmat : mat.get n i ≠ 0 := fun e => hskip.2 (by rw [hf.keep n (by omega) e, e])
        split_ifs with hp hr'
        · rw [hs n (by omega) hmat r hr hir, hs i hi hpiv r hr hir, zero_mul, sub_zero]
        · exact absurd ⟨hir.le, hr⟩ hr'
        · exact hs k hk hne r hr hir)
  exact h.2

private theorem scaled_get {mat : Mat} (hir : i < row) (hne : mat.get i i ≠ 0) (k : Nat) :
    let m := scaleCol mat i (divElem 1 (mat.get i i)) row
    (m.get k i = 0 ↔ mat.get k i = 0) ∧ (mat.get k i = 0 → m.get k = mat.get k) ∧
      ∀ r < row, i < r → mat.get k r = 0 → m.get k r = 0 := by
  intro m
  have hm : m = mat.setCol i (fun j => if i ≤ j ∧ j < row then mat.get i j * divElem 1
      (mat.get i i) else mat.get i j) :=
    scaleCol_eq _ _ _ _
  by_cases hp : mat.ptr k = mat.ptr i
  · have hk (r : Nat) : mat.get k r = mat.get i r := by rw [Mat.get, hp, Mat.get]
    have hg (r : Nat) (hr : r < row) (hi : i ≤ r) : m.get k r = mat.get k r / mat.get i i := by
      rw [hm, Mat.get_setCol, if_pos hp, if_pos ⟨hi, hr⟩, divElem_eq _ _ hne, mul_one_div, hk]
    have hki : mat.get k i ≠ 0 := by rwa [hk]
    refine ⟨⟨fun hz => ?_, fun hz => absurd hz hki⟩, fun hz => absurd hz hki, fun r hr hir' hz => ?_⟩
    · rw [hg i hir le_rfl] at hz
      exact absurd hz (div_ne_zero hki hne)
    · rw [hg r hr hir'.le, hz, zero_div]
  · have hg : m.get k = mat.get k := by rw [hm, get_setCol_of_ne _ hp]
    rw [hg]
    exact ⟨Iff.rfl, fun _ => rfl, fun _ _ _ hz => hz⟩

/-- What a pivot step keeps, whatever buffers the table repeats. -/
structure PivotFrame (col i p : Nat) (mat invMat : Mat) (s : Mat × Mat) : Prop where
  ptr : s.1.ptr = mat.ptr ∘ Equiv.swap p i
  invDistinct : s.2.Distinct col
  invPivot : ∀ l < col, s.2.get i l = invMat.get p l / mat.get p i
  keep : ∀ k < col, mat.get (Equiv.swap p i k) i = 0 →
    s.1.get k = mat.get (Equiv.swap p i k) ∧ s.2.get k = invMat.get (Equiv.swap p i k)

/-- A step with the pivot `p` changes the entries from row `i` on only, and clears row `i` outside the pivot. -/
theorem pivotStep_frame (row : Nat) {p : Nat} {mat invMat : Mat} (hd : invMat.Distinct col) (hir : i < row)
    (hip : i ≤ p) (hpc : p < col) (hne : mat.get p i ≠ 0) :
    PivotFrame col i p mat invMat (pivotStep col row i p (mat, invMat)) ∧
      ((∀ k < col, mat.get k i ≠ 0 → ∀ r < row, i < r → mat.get k r = 0) →
        ∀ k < col, mat.get (Equiv.swap p i k) i ≠ 0 → ∀ r < row, i < r →
          (pivotStep col row i p (mat, invMat)).1.get k r = 0) := by
  have hic : i < col := by omega
  let m₁ := mat.swap p i
  let w₁ := invMat.swap p i
  have hpi : m₁.get i i = mat.get p i := by rw [Mat.get_swap, Equiv.swap_apply_right]
  have hne₁ : m₁.get i i ≠ 0 := by rwa [hpi]
  let c := divElem 1 (m₁.get i i)
  have hc : c = 1 / mat.get p i := by rw [← hpi]; exact divElem_eq _ _ hne₁
  let m₂ := scaleCol m₁ i c row
  let w₂ := w₁.setCol i (mulVecLocal (w₁.buf (w₁.ptr i)) c col)
  have hd₁ : w₁.Distinct col := hd.swap hpc hic
  have hd₂ : w₂.Distinct col := hd₁.setCol _ _
  have hf : ClearFrame col i m₂ w₂ (pivotStep col row i p (mat, invMat)) := clearFrame_run hd₂
  have hw (k : Nat) (hk : k < col) (hki : k ≠ i) : w₂.get k = invMat.get (Equiv.swap p i k) :=
    get_setCol_of_ne _ fun e => hki (hd₁ k hk i hic e)
  refine ⟨⟨?_, ?_, ?_, ?_⟩, ?_⟩
  · rw [hf.ptr, show m₂ = _ from scaleCol_eq _ _ _ _]
    rfl
  · intro j hj k hk he
    rw [hf.invPtr] at he
    exact hd₂ j hj k hk he
  · intro l hl
    have he : w₁.buf (w₁.ptr i) l = invMat.get p l := by simp [w₁, Mat.swap, Mat.get]
    rw [hf.invKeep i hic (Or.inl rfl), Mat.get_setCol_self, mulVecLocal_eq]
    dsimp only
    rw [if_pos hl, he, hc, one_div_mul_eq_div]
  · intro k hk hz
    obtain ⟨hiff, hkeep, _⟩ := scaled_get hir hne₁ k
    have hki : k ≠ i := by
      rintro rfl
      rw [Equiv.swap_apply_right] at hz
      exact hne hz
    rw [hf.keep k hk (hiff.mpr hz), hf.invKeep k hk (Or.inr (hiff.mpr hz)), hw k hk hki]
    exact ⟨hkeep hz, rfl⟩
  · intro hz k hk hk' r hr hri
    have hlt (k : Nat) (hk : k < col) : Equiv.swap p i k < col := by
      rw [Equiv.swap_apply_def]
      split_ifs <;> assumption
    refine clear_behind hic ?_ hd₂ (fun k hk hk' r hr hri => ?_) k hk ?_ r hr hri
    · exact fun h0 => hne₁ ((scaled_get hir hne₁ i).1.mp h0)
    · obtain ⟨hiff, _, hzero⟩ := scaled_get hir hne₁ k
      exact hzero r hr hri (hz _ (hlt k hk) (fun h0 => hk' (hiff.mpr h0)) r hr hri)
    · exact fun h0 => hk' ((scaled_get hir hne₁ k).1.mp h0)

/-- Columns with at most one nonzero entry from row `i` on. A column behind the pivots is
cleared from row `i` on, or its recorded combination is what the table holds of it. -/
structure UnitInv (col row : Nat) (A : Nat → Nat → SymbolType) (i : Nat) (s : Mat × Mat) : Prop where
  invDistinct : s.2.Distinct col
  le_col : i ≤ col
  sparse : ∀ k < col, ∀ r < row, ∀ r' < row, i ≤ r → i ≤ r' → s.1.get k r ≠ 0 → s.1.get k r' ≠ 0 → r = r'
  zero : ∀ k < i, ∀ r < row, i ≤ r → s.1.get k r = 0
  unit : ∀ k < i, ∀ r < row, ∑ l ∈ range col, A l r * s.2.get k l = if k = r then 1 else 0
  live : ∀ k < col, i ≤ k → (∀ r < row, i ≤ r → s.1.get k r = 0) ∨
    ∀ r < row, ∑ l ∈ range col, A l r * s.2.get k l = if i ≤ r then s.1.get k r else 0

theorem swap_of_lt {p k : Nat} (hip : i ≤ p) (hk : k < i) : Equiv.swap p i k = k :=
  Equiv.swap_apply_of_ne_of_ne (by omega) (by omega)

private theorem swap_mem {p k : Nat} (hip : i ≤ p) (hp : p < col) (hk : k < col) (hik : i ≤ k) :
    Equiv.swap p i k < col ∧ i ≤ Equiv.swap p i k := by
  rw [Equiv.swap_apply_def]
  split_ifs <;> omega

private theorem unit_step {A : Nat → Nat → SymbolType} {p : Nat} {s : Mat × Mat} (h : UnitInv col row A i s)
    (hir : i < row) (hp : findNonZeroCol s.1 i col = some p) :
    UnitInv col row A (i + 1) (pivotStep col row i p s) := by
  obtain ⟨mat, invMat⟩ := s
  obtain ⟨hip, hpc, hne⟩ := findNonZeroCol_some hp
  have hbehind (k : Nat) (hk : k < col) (hk' : mat.get k i ≠ 0) (r : Nat) (hr : r < row) (hri : i < r) :
      mat.get k r = 0 := by
    by_contra hc
    exact hri.ne (h.sparse k hk i hir r hr le_rfl hri.le hk' hc)
  obtain ⟨hf, hz⟩ := pivotStep_frame row h.invDistinct hir hip hpc hne
  have hz := hz hbehind
  generalize pivotStep col row i p (mat, invMat) = s at hf hz ⊢
  -- the combination of the pivot is a multiple of unit vector `i`
  have hcomb (r : Nat) (hr : r < row) : ∑ l ∈ range col, A l r * invMat.get p l = if i = r then mat.get p i else 0 := by
    rcases h.live p hpc hip with hdead | hl
    · exact absurd (hdead i hir le_rfl) hne
    · rw [hl r hr]
      rcases lt_trichotomy i r with hlt | rfl | hgt
      · rw [if_pos hlt.le, if_neg hlt.ne, hbehind p hpc hne r hr hlt]
      · rw [if_pos le_rfl, if_pos rfl]
      · rw [if_neg (by omega), if_neg (by omega)]
  have hold (k : Nat) (hk : k < i) : s.1.get k = mat.get k ∧ s.2.get k = invMat.get k := by
    have hs := swap_of_lt hip hk
    have := hf.keep k (by omega) (by rw [hs]; exact h.zero k hk i hir le_rfl)
    rwa [hs] at this
  refine ⟨hf.invDistinct, by omega, ?_, ?_, ?_, ?_⟩
  · intro k hk r hr r' hr' hir' hir'' hne' hne''
    have hki : mat.get (Equiv.swap p i k) i = 0 := by
      by_contra hc
      exact hne' (hz k hk hc r hr hir')
    rw [(hf.keep k hk hki).1] at hne' hne''
    have hlt : Equiv.swap p i k < col := by
      rw [Equiv.swap_apply_def]
      split_ifs <;> omega
    exact h.sparse _ hlt r hr r' hr' (by omega) (by omega) hne' hne''
  · intro k hk r hr hir'
    by_cases hki : k = i
    · subst hki
      exact hz k (by omega) (by rwa [Equiv.swap_apply_right]) r hr hir'
    · rw [(hold k (by omega)).1]
      exact h.zero k (by omega) r hr (by omega)
  · intro k hk r hr
    by_cases hki : k = i
    · subst hki
      have hsum : ∑ l ∈ range col, A l r * s.2.get k l = (∑ l ∈ range col, A l r * invMat.get p l) / mat.get p k := by
        rw [Finset.sum_div]
        apply Finset.sum_congr rfl
        intro l hl
        rw [hf.invPivot l (mem_range.mp hl), mul_div_assoc]
      rw [hsum, hcomb r hr]
      split_ifs with hkr
      · exact div_self hne
      · exact zero_div _
    · rw [(hold k (by omega)).2]
      exact h.unit k (by omega) r hr
  · intro k hk hik
    by_cases hki : mat.get (Equiv.swap p i k) i = 0
    · obtain ⟨hlt, hge⟩ := swap_mem hip hpc hk (show i ≤ k by omega)
      obtain ⟨hm, hw⟩ := hf.keep k hk hki
      rw [hm, hw]
      refine (h.live _ hlt hge).imp (fun hdead r hr hir' => hdead r hr (by omega)) fun hl r hr => ?_
      rw [hl r hr]
      by_cases hri : r = i
      · subst hri
        rw [if_pos le_rfl, if_neg (by omega)]
        exact hki
      · exact if_congr (by omega) rfl rfl
    · exact Or.inl fun r hr hir' => hz k hk hki r hr hir'

private theorem unit_run {A : Nat → Nat → SymbolType} (left i : Nat) (s : Mat × Mat) (h : UnitInv col row A i s)
    (hi : i + left = row) (hr : (eliminateFrom col row left i s).1 = row) :
    UnitInv col row A row (eliminateFrom col row left i s).2 := by
  induction left generalizing i s with
  | zero =>
    have he : i = row := by omega
    subst he
    exact h
  | succ left ih =>
    rw [eliminateFrom] at hr ⊢
    cases hp : findNonZeroCol s.1 i col with
    | none =>
      rw [hp] at hr
      have hr' : i = row := hr
      omega
    | some p =>
      rw [hp] at hr
      exact ih (i + 1) _ (unit_step h (by omega) hp) (by omega) hr

/-- Over columns with at most one nonzero entry each, repeated or not, an elimination that
reaches `row` records the combinations that give the unit vectors. -/
theorem gaussianElimination_unit (mat : Mat) (col row : Nat)
    (hs : ∀ k < col, ∀ r < row, ∀ r' < row, mat.get k r ≠ 0 → mat.get k r' ≠ 0 → r = r')
    (hr : (gaussianElimination mat (newIdentityMat col) col row).1 = row) :
    ∀ k < row, ∀ r < row, ∑ l ∈ range col,
      mat.get l r * (gaussianElimination mat (newIdentityMat col) col row).2.2.get k l = if k = r then 1 else 0 := by
  have h0 : UnitInv col row mat.get 0 (mat, newIdentityMat col) := by
    refine ⟨fun _ _ _ _ he => he, Nat.zero_le _, fun k hk r hr r' hr' _ _ => hs k hk r hr r' hr',
      fun _ hk => absurd hk (by omega), fun _ hk => absurd hk (by omega), fun k hk _ => Or.inr fun r hr => ?_⟩
    rw [← (newIdentityMat_reduced col).expresses k hk r hr, if_pos (Nat.zero_le r)]
  exact (unit_run row 0 _ h0 (Nat.zero_add row) hr).unit

private theorem clear_alias {k₀ : Nat} {mat invMat : Mat} (hone : mat.get i i = 1) (hk : k₀ < col) (hki : k₀ ≠ i)
    (hp : mat.ptr k₀ = mat.ptr i) :
    ∀ r < row, i ≤ r → (forUp 0 col (clearEntry col row i) (mat, invMat)).1.get i r = 0 := by
  have h := forUp_invariant 0 col (clearEntry col row i) (mat, invMat)
    (fun n s => s.1.ptr = mat.ptr ∧
      ((n ≤ k₀ ∧ s.1.get i = mat.get i) ∨ ∀ r < row, i ≤ r → i < row → s.1.get i r = 0))
    ⟨rfl, Or.inl ⟨Nat.zero_le _, rfl⟩⟩
    (by
      rintro n s _ hn ⟨hptr, hs⟩
      by_cases hal : s.1.ptr n = s.1.ptr i
      · have hsame (r : Nat) : s.1.get n r = s.1.get i r := by rw [Mat.get, hal, Mat.get]
        by_cases hskip : n = i ∨ s.1.get n i = 0
        · rw [clearEntry_skip hskip]
          refine ⟨hptr, hs.imp (fun hu => ⟨?_, hu.2⟩) id⟩
          rcases hskip with rfl | hz
          · omega
          · rw [hsame, hu.2, hone] at hz
            exact absurd hz one_ne_zero
        · rw [not_or] at hskip
          rw [clearEntry_reduce hskip.1 hskip.2, reduceCol_eq]
          refine ⟨hptr, Or.inr fun r hr hir hrow => ?_⟩
          rw [Mat.get_setCol, if_pos hal.symm, if_pos ⟨hir, hr⟩]
          rcases hs with hu | hz
          · rw [hsame, hsame, hu.2, hone, mul_one, sub_self]
          · exact absurd ((hsame i).trans (hz i hrow le_rfl hrow)) hskip.2
      · have hnk : n ≠ k₀ := by
          rintro rfl
          exact hal (by rw [hptr, hp])
        by_cases hskip : n = i ∨ s.1.get n i = 0
        · rw [clearEntry_skip hskip]
          exact ⟨hptr, hs.imp (fun hu => ⟨by omega, hu.2⟩) id⟩
        · rw [not_or] at hskip
          rw [clearEntry_reduce hskip.1 hskip.2, reduceCol_eq]
          refine ⟨hptr, ?_⟩
          dsimp only
          rw [get_setCol_of_ne _ (fun e => hal e.symm)]
          exact hs.imp (fun hu => ⟨by omega, hu.2⟩) id)
  intro r hr hir
  rcases h.2 with hu | hz
  · omega
  · exact hz r hr hir (by omega)

/-- Where the buffer of the pivot is listed twice, the pivot itself ends up empty. -/
theorem pivotStep_alias {p k₀ : Nat} {mat : Mat} (invMat : Mat) (hir : i < row) (hne : mat.get p i ≠ 0)
    (hk : k₀ < col) (hki : k₀ ≠ i) (hp : mat.ptr (Equiv.swap p i k₀) = mat.ptr p) :
    ∀ r < row, i ≤ r → (pivotStep col row i p (mat, invMat)).1.get i r = 0 := by
  have hpi : (mat.swap p i).get i i = mat.get p i := by rw [Mat.get_swap, Equiv.swap_apply_right]
  have hne₁ : (mat.swap p i).get i i ≠ 0 := by rwa [hpi]
  refine clear_alias ?_ hk hki ?_
  · rw [scaleCol_eq, Mat.get_setCol_self, if_pos ⟨le_rfl, hir⟩, divElem_eq _ _ hne₁, mul_one_div, div_self hne₁]
  · rw [scaleCol_eq]
    exact hp.trans (congrArg mat.ptr (Equiv.swap_apply_right p i).symm)

end Soar.Communication
