import Mathlib.Algebra.BigOperators.Field
import Mathlib.LinearAlgebra.Matrix.Rank
import Mathlib.Tactic.LinearCombination

/-! Column reduction over a field. A family `M` holds column `k` as `M k`; `P` records
how the columns of the original family `A` combine to those of `M`. -/
namespace Soar.Library.ColumnReduction
open Finset

variable {F : Type*} [Field F] {col row i p : Nat} {A M P M' P' : Nat → Nat → F}

/-- Column `k` of `M` is the combination `P k` of the columns of `A`. -/
def Expresses (col row : Nat) (A M P : Nat → Nat → F) : Prop :=
  ∀ k < col, ∀ r < row, M k r = ∑ l ∈ range col, A l r * P k l

/-- The row vector `v` is orthogonal to every column. -/
def Kills (col row : Nat) (v : Nat → F) (M : Nat → Nat → F) : Prop :=
  ∀ k < col, ∑ r ∈ range row, v r * M k r = 0

/-- The first `i` rows are those of the identity. -/
def Reduced (col i : Nat) (M : Nat → Nat → F) : Prop :=
  ∀ k < col, ∀ r < i, M k r = if k = r then 1 else 0

/-- Only the zero row vector is orthogonal to every column. -/
def FullRank (col row : Nat) (M : Nat → Nat → F) : Prop :=
  ∀ v : Nat → F, Kills col row v M → ∀ r < row, v r = 0

/-- Column `p` moves to place `i`, is normalised at row `i` and cleared from the others. -/
structure PivotStep (col row i p : Nat) (M P M' P' : Nat → Nat → F) : Prop where
  row_lt : i < row
  le_pivot : i ≤ p
  pivot_lt : p < col
  pivot_ne : M p i ≠ 0
  col_pivot : ∀ r < row, M' i r = M p r / M p i
  col_other : ∀ k < col, k ≠ i → ∀ r < row,
    M' k r = M (Equiv.swap p i k) r - M (Equiv.swap p i k) i * M' i r
  inv_pivot : ∀ l < col, P' i l = P p l / M p i
  inv_other : ∀ k < col, k ≠ i → ∀ l < col,
    P' k l = P (Equiv.swap p i k) l - M (Equiv.swap p i k) i * P' i l

/-- The operations of a step on one family: column `p` moves to place `i` and is divided by
`pivot`, and its multiples are taken off the others. -/
structure ColumnStep (col row i p : Nat) (pivot : F) (factor : Nat → F) (M M' : Nat → Nat → F) : Prop where
  le_pivot : i ≤ p
  pivot_lt : p < col
  pivot_ne : pivot ≠ 0
  col_pivot : ∀ r < row, M' i r = M p r / pivot
  col_other : ∀ k < col, k ≠ i → ∀ r < row, M' k r = M (Equiv.swap p i k) r - factor k * M' i r

private theorem swap_lt (hi : i < col) (hp : p < col) {k : Nat} (hk : k < col) :
    Equiv.swap p i k < col := by
  rw [Equiv.swap_apply_def]
  split_ifs <;> assumption

namespace ColumnStep

variable {pivot : F} {factor : Nat → F}

private theorem sum_pivot (h : ColumnStep col row i p pivot factor M M') (v : Nat → F) :
    ∑ r ∈ range row, v r * M p r = pivot * ∑ r ∈ range row, v r * M' i r := by
  rw [Finset.mul_sum]
  apply Finset.sum_congr rfl
  intro r hr
  rw [h.col_pivot r (mem_range.mp hr)]
  field_simp [h.pivot_ne]

private theorem sum_other (h : ColumnStep col row i p pivot factor M M') (v : Nat → F) {k : Nat} (hk : k < col)
    (hki : k ≠ i) : ∑ r ∈ range row, v r * M (Equiv.swap p i k) r =
      ∑ r ∈ range row, v r * M' k r + factor k * ∑ r ∈ range row, v r * M' i r := by
  rw [Finset.mul_sum, ← Finset.sum_add_distrib]
  apply Finset.sum_congr rfl
  intro r hr
  rw [h.col_other k hk hki r (mem_range.mp hr)]
  ring

/-- The columns before the step are combinations of those after it, and conversely. -/
theorem kills_iff (h : ColumnStep col row i p pivot factor M M') (v : Nat → F) :
    Kills col row v M ↔ Kills col row v M' := by
  have hic : i < col := lt_of_le_of_lt h.le_pivot h.pivot_lt
  constructor
  · intro hv
    have hi : ∑ r ∈ range row, v r * M' i r = 0 := by
      have hp := h.sum_pivot v
      rw [hv p h.pivot_lt] at hp
      exact (mul_eq_zero.mp hp.symm).resolve_left h.pivot_ne
    intro k hk
    by_cases hki : k = i
    · subst hki
      exact hi
    · have hs := h.sum_other v hk hki
      rwa [hv _ (swap_lt hic h.pivot_lt hk), hi, mul_zero, add_zero, eq_comm] at hs
  · intro hv k hk
    by_cases hkp : k = p
    · subst hkp
      rw [h.sum_pivot v, hv i hic, mul_zero]
    · have hne : Equiv.swap p i k ≠ i := by
        intro e
        apply hkp
        rw [← Equiv.swap_apply_self p i k, e, Equiv.swap_apply_right]
      have hs := h.sum_other v (swap_lt hic h.pivot_lt hk) hne
      rwa [Equiv.swap_apply_self, hv _ (swap_lt hic h.pivot_lt hk), hv i hic, mul_zero, add_zero] at hs

end ColumnStep

namespace PivotStep

/-- After a pivot step the combinations still express the matrix. -/
theorem expresses (h : PivotStep col row i p M P M' P') (he : Expresses col row A M P) :
    Expresses col row A M' P' := by
  have hic : i < col := lt_of_le_of_lt h.le_pivot h.pivot_lt
  have hpiv (r : Nat) (hr : r < row) : M' i r = ∑ l ∈ range col, A l r * P' i l := by
    rw [h.col_pivot r hr, he p h.pivot_lt r hr, Finset.sum_div]
    apply Finset.sum_congr rfl
    intro l hl
    rw [h.inv_pivot l (mem_range.mp hl), mul_div_assoc]
  intro k hk r hr
  by_cases hki : k = i
  · subst hki
    exact hpiv r hr
  · rw [h.col_other k hk hki r hr, he _ (swap_lt hic h.pivot_lt hk) r hr, hpiv r hr, Finset.mul_sum,
      ← Finset.sum_sub_distrib]
    apply Finset.sum_congr rfl
    intro l hl
    rw [h.inv_other k hk hki l (mem_range.mp hl)]
    ring

/-- A pivot step reduces one row more. -/
theorem reduced (h : PivotStep col row i p M P M' P') (hr : Reduced col i M) :
    Reduced col (i + 1) M' := by
  have hic : i < col := lt_of_le_of_lt h.le_pivot h.pivot_lt
  have hzero (r : Nat) (hri : r < i) : M' i r = 0 := by
    have hp := hr p h.pivot_lt r hri
    rw [if_neg (by have := h.le_pivot; omega)] at hp
    rw [h.col_pivot r (by have := h.row_lt; omega), hp, zero_div]
  have hone : M' i i = 1 := by rw [h.col_pivot i h.row_lt, div_self h.pivot_ne]
  intro k hk r hri
  by_cases hki : k = i
  · subst hki
    by_cases he : r = k
    · subst he
      rw [hone, if_pos rfl]
    · rw [hzero r (by omega), if_neg (fun e => he e.symm)]
  · rw [h.col_other k hk hki r (by have := h.row_lt; omega)]
    by_cases he : r = i
    · subst he
      rw [hone, mul_one, sub_self, if_neg hki]
    · have hs := hr _ (swap_lt hic h.pivot_lt hk) r (by omega)
      rw [hzero r (by omega), mul_zero, sub_zero, hs]
      have hip := h.le_pivot
      by_cases hkp : k = p
      · subst hkp
        rw [Equiv.swap_apply_left, if_neg (by omega), if_neg (by omega)]
      · rw [Equiv.swap_apply_of_ne_of_ne hkp hki]

/-- The step on the matrix, -/
theorem columns (h : PivotStep col row i p M P M' P') :
    ColumnStep col row i p (M p i) (fun k => M (Equiv.swap p i k) i) M M' :=
  ⟨h.le_pivot, h.pivot_lt, h.pivot_ne, h.col_pivot, h.col_other⟩

/-- and on the recorded combinations. -/
theorem combinations (h : PivotStep col row i p M P M' P') :
    ColumnStep col col i p (M p i) (fun k => M (Equiv.swap p i k) i) P P' :=
  ⟨h.le_pivot, h.pivot_lt, h.pivot_ne, h.inv_pivot, h.inv_other⟩

end PivotStep

theorem Expresses.kills (he : Expresses col row A M P) (v : Nat → F) (hv : Kills col row v A) :
    Kills col row v M := by
  intro k hk
  calc ∑ r ∈ range row, v r * M k r
      = ∑ r ∈ range row, ∑ l ∈ range col, v r * (A l r * P k l) := by
        apply Finset.sum_congr rfl
        intro r hr
        rw [he k hk r (mem_range.mp hr), Finset.mul_sum]
    _ = ∑ l ∈ range col, P k l * ∑ r ∈ range row, v r * A l r := by
        rw [Finset.sum_comm]
        apply Finset.sum_congr rfl
        intro l _
        rw [Finset.mul_sum]
        apply Finset.sum_congr rfl
        intro r _
        ring
    _ = 0 := by
        apply Finset.sum_eq_zero
        intro l hl
        rw [hv l (mem_range.mp hl), mul_zero]

/-- The identity records the columns as they are. -/
theorem Reduced.expresses (hr : Reduced col col P) : Expresses col row A A P := by
  intro k hk r _
  rw [Finset.sum_eq_single k]
  · rw [hr k hk k hk, if_pos rfl, mul_one]
  · intro l hl hne
    rw [hr k hk l (mem_range.mp hl), if_neg hne.symm, mul_zero]
  · intro hn
    exact absurd (mem_range.mpr hk) hn

/-- A completely reduced family leaves no orthogonal row vector. -/
theorem Reduced.fullRank (hr : Reduced col row M) (hle : row ≤ col) : FullRank col row M := by
  intro v hv r hrow
  have hs := hv r (by omega)
  rw [Finset.sum_eq_single r] at hs
  · rwa [hr r (by omega) r hrow, if_pos rfl, mul_one] at hs
  · intro s hsr hne
    rw [hr r (by omega) s (mem_range.mp hsr), if_neg (fun e => hne e.symm), mul_zero]
  · intro hn
    exact absurd (mem_range.mpr hrow) hn

/-- Without a pivot in row `i` the columns satisfy a nontrivial linear equation. -/
theorem Reduced.not_fullRank (hr : Reduced col i M) (hi : i < row)
    (hz : ∀ k, i ≤ k → k < col → M k i = 0) : ¬ FullRank col row M := by
  intro hf
  let v : Nat → F := fun r => if r = i then 1 else if r < i ∧ r < col then - M r i else 0
  have hv : Kills col row v M := by
    intro k hk
    have hterm (r : Nat) (hr' : r ∈ range row) (hne : r ≠ i) (hnk : r ≠ k) : v r * M k r = 0 := by
      by_cases hri : r < i
      · rw [hr k hk r hri, if_neg (fun e => hnk e.symm), mul_zero]
      · simp [v, hne, hri]
    by_cases hki : i ≤ k
    · rw [Finset.sum_eq_zero]
      intro r hr'
      by_cases hne : r = i
      · subst hne
        rw [hz k hki hk, mul_zero]
      · by_cases hnk : r = k
        · subst hnk
          simp [v, hne, show ¬ r < i by omega]
        · exact hterm r hr' hne hnk
    · have hlt : k < i := by omega
      rw [Finset.sum_eq_add_of_mem i k (mem_range.mpr hi) (mem_range.mpr (by omega)) (by omega)
        (fun r hr' hne => hterm r hr' hne.1 hne.2)]
      have hkk : M k k = 1 := by rw [hr k hk k hlt, if_pos rfl]
      simp [v, hkk, hlt, hk, show k ≠ i by omega]
  have := hf v hv i hi
  simp [v] at this

/-- A combination `p` of the columns that is unit vector `k` recovers source `k` from encoded data. -/
theorem combination_recovers {k : Nat} (p S Y : Nat → F) (hkr : k < row)
    (hp : ∀ r < row, ∑ l ∈ range col, A l r * p l = if k = r then 1 else 0)
    (hY : ∀ l < col, Y l = ∑ r ∈ range row, S r * A l r) : ∑ l ∈ range col, p l * Y l = S k := by
  calc ∑ l ∈ range col, p l * Y l
      = ∑ l ∈ range col, ∑ r ∈ range row, S r * (A l r * p l) := by
        apply Finset.sum_congr rfl
        intro l hl
        rw [hY l (mem_range.mp hl), Finset.mul_sum]
        apply Finset.sum_congr rfl
        intro r _
        ring
    _ = ∑ r ∈ range row, S r * if k = r then 1 else 0 := by
        rw [Finset.sum_comm]
        apply Finset.sum_congr rfl
        intro r hr
        rw [← hp r (mem_range.mp hr), Finset.mul_sum]
    _ = S k := by
        rw [Finset.sum_eq_single k]
        · rw [if_pos rfl, mul_one]
        · intro r _ hne
          rw [if_neg (fun e => hne e.symm), mul_zero]
        · intro hn
          exact absurd (mem_range.mpr hkr) hn

/-- Applying the recorded combination `P k` to encoded data recovers source `k`. -/
theorem Expresses.recovers (he : Expresses col row A M P) (hr : Reduced col row M) (S Y : Nat → F)
    (hY : ∀ l < col, Y l = ∑ r ∈ range row, S r * A l r) (k : Nat) (hk : k < col) (hkr : k < row) :
    ∑ l ∈ range col, P k l * Y l = S k := by
  refine combination_recovers (P k) S Y hkr (fun r hrow => ?_) hY
  rw [← he k hk r hrow, hr k hk r hrow]

/-- The matrix of the first `row` entries of the first `col` columns. -/
def toMatrix (col row : Nat) (M : Nat → Nat → F) : Matrix (Fin row) (Fin col) F := fun r k => M k r

theorem kills_iff_vecMul (v : Nat → F) :
    Kills col row v M ↔ Matrix.vecMul (fun r : Fin row => v r) (toMatrix col row M) = 0 := by
  simp only [Kills, funext_iff, Matrix.vecMul, dotProduct, toMatrix, Pi.zero_apply]
  constructor
  · intro h k
    rw [Fin.sum_univ_eq_sum_range (fun r => v r * M k r) row]
    exact h k k.isLt
  · intro h k hk
    have := h ⟨k, hk⟩
    rwa [Fin.sum_univ_eq_sum_range (fun r => v r * M k r) row] at this

/-- `FullRank` is the row count reached by the rank of the matrix. -/
theorem rank_eq_iff_fullRank : (toMatrix col row M).rank = row ↔ FullRank col row M := by
  have hli : (toMatrix col row M).rank = row ↔ LinearIndependent F (toMatrix col row M).row := by
    rw [linearIndependent_iff_card_eq_finrank_span, Matrix.rank_eq_finrank_span_row, Fintype.card_fin]
    exact eq_comm
  rw [hli, ← Matrix.vecMul_injective_iff]
  constructor
  · intro hi v hv r hr
    have hz := hi (((kills_iff_vecMul v).mp hv).trans (Matrix.zero_vecMul _).symm)
    exact congrFun hz ⟨r, hr⟩
  · intro hf a b hab
    let v : Nat → F := fun r => if h : r < row then a ⟨r, h⟩ - b ⟨r, h⟩ else 0
    have hva : (fun r : Fin row => v r) = a - b := by
      funext r
      simp [v]
    have hv : Kills col row v M := by
      rw [kills_iff_vecMul, hva, Matrix.sub_vecMul]
      exact sub_eq_zero.mpr hab
    funext r
    have hr := hf v hv r r.isLt
    simp only [v, r.isLt, dif_pos] at hr
    exact sub_eq_zero.mp hr

end Soar.Library.ColumnReduction
