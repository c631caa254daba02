import Mathlib.LinearAlgebra.Matrix.Block
import Mathlib.LinearAlgebra.Matrix.NonsingularInverse
import Soar.Library.ColumnReduction

/-! Ranks under column operations: the recorded combinations as an invertible matrix, the rank of a
family in echelon form, and the rows that are independent of those before them. -/
namespace Soar.Library.ColumnReduction
open Finset

variable {F : Type*} [Field F] {col row i r : Nat} {A M M' P : Nat → Nat → F}

theorem toMatrix_mul (he : Expresses col row A M P) :
    toMatrix col row M = toMatrix col row A * toMatrix col col P := by
  ext r k
  rw [Matrix.mul_apply]
  simp only [toMatrix]
  rw [Fin.sum_univ_eq_sum_range (fun l => A l r * P k l) col]
  exact he k k.isLt r r.isLt

theorem Expresses.mono (he : Expresses col row A M P) (hr : r ≤ row) : Expresses col r A M P :=
  fun k hk s hs => he k hk s (hs.trans_le hr)

theorem isUnit_toMatrix_iff : IsUnit (toMatrix col col P) ↔ FullRank col col P := by
  rw [← rank_eq_iff_fullRank]
  constructor
  · intro h
    rw [Matrix.rank_of_isUnit _ h, Fintype.card_fin]
  · intro h
    rw [← Matrix.linearIndependent_rows_iff_isUnit, linearIndependent_iff_card_eq_finrank_span, Set.finrank,
      ← Matrix.rank_eq_finrank_span_row, h, Fintype.card_fin]

/-- Invertible combinations keep the rows independent or dependent. -/
theorem Expresses.fullRank_iff (he : Expresses col row A M P) (hP : IsUnit (toMatrix col col P)) :
    FullRank col row M ↔ FullRank col row A := by
  rw [← rank_eq_iff_fullRank, ← rank_eq_iff_fullRank, toMatrix_mul he,
    Matrix.rank_mul_eq_left_of_isUnit_det _ _ ((Matrix.isUnit_iff_isUnit_det _).mp hP)]

/-- Families that the same row vectors are orthogonal to have the same rank. -/
theorem rank_eq_of_kills_iff (h : ∀ v, Kills col row v M ↔ Kills col row v M') :
    (toMatrix col row M).rank = (toMatrix col row M').rank := by
  have hker : LinearMap.ker (toMatrix col row M).vecMulLinear = LinearMap.ker (toMatrix col row M').vecMulLinear := by
    ext v
    obtain ⟨w, rfl⟩ : ∃ w : Nat → F, v = fun r : Fin row => w r :=
      ⟨fun r => if hr : r < row then v ⟨r, hr⟩ else 0, by simp⟩
    rw [LinearMap.mem_ker, LinearMap.mem_ker]
    exact (kills_iff_vecMul w).symm.trans ((h w).trans (kills_iff_vecMul w))
  have hrank (N : Matrix (Fin row) (Fin col) F) :
      N.rank + Module.finrank F (LinearMap.ker N.vecMulLinear) = row := by
    rw [Matrix.rank_eq_finrank_span_row, ← range_vecMulLinear, LinearMap.finrank_range_add_finrank_ker,
      Module.finrank_fin_fun]
  have := hrank (toMatrix col row M)
  have := hrank (toMatrix col row M')
  rw [hker] at *
  omega

/-- The first `i` columns have pivots in rows in which all later columns are zero; the columns from
`i` on are zero before row `r`. -/
structure Echelon (col row i r : Nat) (M : Nat → Nat → F) : Prop where
  le_col : i ≤ col
  pivot : ∀ k < i, ∃ s < row, M k s ≠ 0 ∧ ∀ k', k < k' → k' < col → M k' s = 0
  zero : ∀ k, i ≤ k → k < col → ∀ s < r, M k s = 0

/-- A pivot in the first row that is not zero from place `i` on, cleared from the later columns. -/
theorem Echelon.step {p : Nat} (h : Echelon col row i r M) (hr : r < row)
    (hs : ColumnStep col row i p (M p r) (fun k => if i < k then M (Equiv.swap p i k) r else 0) M M') :
    Echelon col row (i + 1) r M' := by
  have hip := hs.le_pivot
  have hpc := hs.pivot_lt
  have hswap {k : Nat} (hk : k < col) (hki : i < k) : i ≤ Equiv.swap p i k ∧ Equiv.swap p i k < col := by
    rw [Equiv.swap_apply_def]
    split_ifs <;> omega
  have hfirst {k s : Nat} (hk : k < i) (hs' : s < row) : M' k s = M k s := by
    rw [hs.col_other k (by omega) (by omega) s hs', if_neg (by omega), zero_mul, sub_zero,
      Equiv.swap_apply_of_ne_of_ne (by omega) (by omega)]
  have hone : M' i r = 1 := by rw [hs.col_pivot r hr, div_self hs.pivot_ne]
  refine ⟨by omega, fun k hk => ?_, fun k hk hkc s hsr => ?_⟩
  · rcases Nat.lt_succ_iff_lt_or_eq.mp hk with hk | rfl
    · obtain ⟨s, hrow, hne, hlater⟩ := h.pivot k hk
      refine ⟨s, hrow, by rwa [hfirst hk hrow], fun k' hkk' hk' => ?_⟩
      have hpivot : M' i s = 0 := by rw [hs.col_pivot s hrow, hlater p (by omega) hpc, zero_div]
      rcases lt_trichotomy k' i with hlt | rfl | hgt
      · rw [hfirst hlt hrow, hlater k' hkk' hk']
      · exact hpivot
      · obtain ⟨hge, hlt⟩ := hswap hk' hgt
        rw [hs.col_other k' hk' (by omega) s hrow, hlater _ (by omega) hlt, hpivot, mul_zero, sub_zero]
    · refine ⟨r, hr, by rw [hone]; exact one_ne_zero, fun k' hkk' hk' => ?_⟩
      rw [hs.col_other k' hk' (by omega) r hr, if_pos hkk', hone, mul_one, sub_self]
  · obtain ⟨hge, hlt⟩ := hswap hkc (by omega)
    rw [hs.col_other k hkc (by omega) s (by omega), h.zero _ hge hlt s hsr, hs.col_pivot s (by omega),
      h.zero p hip hpc s hsr, zero_div, mul_zero, sub_zero]

/-- The pivots alone give the rank at least `i`, -/
theorem Echelon.le_rank (h : Echelon col row i r M) : i ≤ (toMatrix col row M).rank := by
  choose s hs hne hlater using h.pivot
  let pivots : Matrix (Fin i) (Fin i) F :=
    (toMatrix col row M).submatrix (fun k => ⟨s k k.isLt, hs k k.isLt⟩) fun k => ⟨k, k.isLt.trans_le h.le_col⟩
  have hlower : pivots.det = ∏ k, pivots k k := Matrix.det_of_isLowerTriangular pivots fun k k' hk =>
    hlater k k.isLt k' hk (k'.isLt.trans_le h.le_col)
  have hdet : pivots.det ≠ 0 := by
    rw [hlower]
    exact Finset.prod_ne_zero_iff.mpr fun k _ => hne k k.isLt
  calc i = pivots.rank := by rw [Matrix.rank_of_det_ne_zero hdet, Fintype.card_fin]
    _ ≤ (toMatrix col row M).rank := Matrix.rank_submatrix_le _ _ _

/-- and there are no more when the other columns are zero. -/
theorem Echelon.rank_eq (h : Echelon col row i row M) : (toMatrix col row M).rank = i := by
  refine le_antisymm ?_ h.le_rank
  have hcols : Submodule.span F (Set.range (toMatrix col row M).col) ≤
      Submodule.span F (Set.range fun k : Fin i => (toMatrix col row M).col ⟨k, k.isLt.trans_le h.le_col⟩) := by
    rw [Submodule.span_le]
    rintro _ ⟨k, rfl⟩
    by_cases hk : (k : Nat) < i
    · exact Submodule.subset_span ⟨⟨k, hk⟩, rfl⟩
    · have hz : (toMatrix col row M).col k = 0 := by
        funext s
        exact h.zero k (not_lt.mp hk) k.isLt s s.isLt
      rw [hz]
      exact Submodule.zero_mem _
  calc (toMatrix col row M).rank = _ := Matrix.rank_eq_finrank_span_cols _
    _ ≤ _ := Submodule.finrank_mono hcols
    _ ≤ i := (finrank_range_le_card _).trans_eq (Fintype.card_fin i)

/-! The first `r` rows are independent, and row `r` depends on them. -/

theorem FullRank.mono (h : FullRank col row M) (hr : r ≤ row) : FullRank col r M := by
  intro v hv s hs
  have hv' : Kills col row (fun t => if t < r then v t else 0) M := by
    intro k hk
    refine (Finset.sum_subset (range_subset_range.mpr hr) fun t _ ht => ?_).symm.trans
      ((Finset.sum_congr rfl fun t ht => ?_).trans (hv k hk))
    · dsimp only
      rw [if_neg (fun hlt => ht (mem_range.mpr hlt)), zero_mul]
    · dsimp only
      rw [if_pos (mem_range.mp ht)]
  have := h _ hv' s (hs.trans_le hr)
  rwa [if_pos hs] at this

/-- Independent rows count for the rank. -/
theorem FullRank.le_rank (h : FullRank col r M) (hr : r ≤ row) : r ≤ (toMatrix col row M).rank := by
  have hsub : toMatrix col r M = (toMatrix col row M).submatrix (Fin.castLE hr) id := rfl
  calc r = (toMatrix col r M).rank := (rank_eq_iff_fullRank.mpr h).symm
    _ ≤ (toMatrix col row M).rank := hsub ▸ Matrix.rank_submatrix_le _ _ _

/-- The independent rows at the start count for the rank, unless rows that depend on those before
them come first. -/
theorem FullRank.eq_rank_iff (h : FullRank col r M) (hr : r ≤ row) (hnext : r < row → ¬ FullRank col (r + 1) M) :
    r = (toMatrix col row M).rank ↔
      (toMatrix col (toMatrix col row M).rank M).rank = (toMatrix col row M).rank := by
  rw [rank_eq_iff_fullRank]
  constructor
  · intro heq
    rwa [← heq]
  · intro hfull
    refine le_antisymm (h.le_rank hr) (not_lt.mp fun hlt => ?_)
    exact hnext (hlt.trans_le (Matrix.rank_le_height _)) (hfull.mono hlt)

end Soar.Library.ColumnReduction
