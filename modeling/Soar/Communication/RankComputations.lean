import Soar.Communication.Elimination
import Soar.Library.ColumnEchelon

/-! What `gaussianElimination` computes, `getRank`, and when their two results are one. -/
namespace Soar.Communication
open Soar.Library Soar.Library.ColumnReduction

/-- On return of `r` the final matrix is the given one times the invertible final `invMat`; its first
`r` rows are unit vectors, the next is zero from place `r` on, and all rows are reached exactly at
full row rank, where the product is the identity followed by zeros. -/
theorem gaussianElimination_reduces {mat invMat : Mat} {col : Nat} (row : Nat) (hd : mat.Distinct col)
    (hd' : invMat.Distinct col) (hid : Reduced col col invMat.get) :
    let result := gaussianElimination mat invMat col row
    let A := toMatrix col row mat.get
    let P := toMatrix col col result.2.2.get
    result.1 ≤ row ∧ result.1 ≤ col ∧ IsUnit P ∧ toMatrix col row result.2.1.get = A * P ∧
      (∀ i < result.1, ∀ k < col, result.2.1.get k i = if k = i then 1 else 0) ∧
      (result.1 < row → ∀ k < col, result.1 ≤ k → result.2.1.get k result.1 = 0) ∧
      (result.1 = row ↔ A.rank = row) ∧ (A.rank = row → ∀ i k, (A * P) i k = if (k : Nat) = i then 1 else 0) := by
  intro result A P
  obtain ⟨hinv, hzero⟩ := gaussianElimination_run row hd hd' hid
  have hunit : IsUnit P := isUnit_toMatrix_iff.mpr hinv.invertible
  have hmul : toMatrix col row result.2.1.get = A * P := toMatrix_mul hinv.expresses
  have hle : result.1 ≤ row := gaussianElimination_le mat invMat col row
  have hfull : result.1 = row ↔ A.rank = row := by
    rw [rank_eq_iff_fullRank, ← hinv.expresses.fullRank_iff hunit]
    constructor
    · intro he
      have hreduced : Reduced col row result.2.1.get := he ▸ hinv.reduced
      exact hreduced.fullRank (he ▸ hinv.le_col)
    · intro hf
      by_contra hne
      have hlt : result.1 < row := lt_of_le_of_ne hle hne
      exact hinv.reduced.not_fullRank hlt (hzero hlt) hf
  refine ⟨hle, hinv.le_col, hunit, hmul, fun i hi k hk => hinv.reduced k hk i hi,
    fun hlt k hk hik => hzero hlt k hik hk, hfull, fun hrank i k => ?_⟩
  have hrow := hfull.mpr hrank
  rw [← hmul]
  exact hinv.reduced k k.isLt i (hrow.symm ▸ i.isLt)

/-- The columns (0, 1) and (1, 0). -/
def exchanged : Mat := ⟨id, fun k j => if k + j = 1 then 1 else 0⟩

/-- The two unit columns, exchanged, are brought into order. -/
theorem gaussianElimination_reduces_exchanged :
    let result := gaussianElimination exchanged (newIdentityMat 2) 2 2
    result.1 = 2 ∧ IsUnit (toMatrix 2 2 result.2.2.get) ∧
      toMatrix 2 2 result.2.1.get = toMatrix 2 2 exchanged.get * toMatrix 2 2 result.2.2.get := by
  intro result
  obtain ⟨-, -, hunit, hmul, -⟩ :=
    gaussianElimination_reduces 2 (fun _ _ _ _ he => he : exchanged.Distinct 2) (fun _ _ _ _ he => he)
      (newIdentityMat_reduced 2)
  exact ⟨by decide +kernel, hunit, hmul⟩

/-! `getRank`. -/

/-- The first `j` with `i <= j < col` and `mat[j][r] != 0`. -/
def findNonZeroColAt (mat : Mat) (i r col : Nat) : Option Nat :=
  (List.range' i (col - i)).find? fun j => mat.get j r ≠ 0

/-- The loop `while (true)` over the rows from `r` on, of which `left` remain: the first row with a
nonzero entry, and the column of this entry. -/
def searchRow (mat : Mat) (i col : Nat) : (left r : Nat) → Option (Nat × Nat)
  | 0, _ => none
  | left + 1, r =>
    match findNonZeroColAt mat i r col with
    | some nonZeroCol => some (r, nonZeroCol)
    | none => searchRow mat i col left (r + 1)

/-- `mat[i][j] = divElem(mat[i][j], mat[i][r])` for `j` from `row - 1` down to `r`. -/
def normalizeCol (mat : Mat) (i r row : Nat) : Mat :=
  forDown r (row - r) (fun j mat => mat.set i j (divElem (mat.get i j) (mat.get i r))) mat

/-- `mat[k][j] = subElem(mat[k][j], mulElem(mat[i][j], mat[k][r]))` for `j` from `row - 1` down to `r`,
unless `mat[k][r]` is zero. -/
def clearCol (i r row k : Nat) (mat : Mat) : Mat :=
  if mat.get k r ≠ 0 then
    forDown r (row - r) (fun j mat => mat.set k j (subElem (mat.get k j) (mulElem (mat.get i j) (mat.get k r)))) mat
  else mat

/-- The loop body of `getRank` once the pivot is found. -/
def rankStep (col row i r nonZeroCol : Nat) (mat : Mat) : Mat :=
  forUp (i + 1) (col - (i + 1)) (clearCol i r row) (normalizeCol (mat.swap i nonZeroCol) i r row)

/-- The iterations from `i` on, of which `left` remain. -/
def rankFrom (col row : Nat) : (left i r : Nat) → Mat → Nat
  | 0, i, _, _ => i
  | left + 1, i, r, mat =>
    match searchRow mat i col (row - r) r with
    | none => i
    | some (r, nonZeroCol) => rankFrom col row left (i + 1) r (rankStep col row i r nonZeroCol mat)

def getRank (mat : Mat) (col row : Nat) : Nat := rankFrom col row (min row col) 0 0 mat

theorem normalizeCol_eq (mat : Mat) (i r row : Nat) (hne : mat.get i r ≠ 0) :
    normalizeCol mat i r row =
      mat.setCol i (fun j => if r ≤ j ∧ j < row then mat.get i j / mat.get i r else mat.get i j) := by
  apply colLoop_eq mat r i row (fun j m => divElem (m.get i j) (m.get i r))
  intro j w hj hw
  rw [Mat.get_setCol_self, Mat.get_setCol_self, hw j le_rfl, hw r hj, divElem_eq _ _ hne]

theorem clearCol_eq {mat : Mat} {i k : Nat} (r row : Nat) (hptr : mat.ptr i ≠ mat.ptr k) :
    clearCol i r row k mat =
      mat.setCol k (fun j => if r ≤ j ∧ j < row then mat.get k j - mat.get k r * mat.get i j else mat.get k j) := by
  unfold clearCol
  split_ifs with hzero
  · apply colLoop_eq mat r k row (fun j m => subElem (m.get k j) (mulElem (m.get i j) (m.get k r)))
    intro j w hj hw
    have hi : (mat.setCol k w).get i j = mat.get i j := by rw [Mat.get_setCol, if_neg hptr]
    rw [hi, Mat.get_setCol_self, Mat.get_setCol_self, hw j le_rfl, hw r hj, subElem_eq, mulElem_eq, mul_comm]
  · have hsame : (fun j => if r ≤ j ∧ j < row then mat.get k j - mat.get k r * mat.get i j else mat.get k j) =
        mat.get k := by
      funext j
      rw [not_not.mp hzero, zero_mul, sub_zero, ite_self]
    rw [hsame, Mat.setCol_self]

/-- The state of the clearing loop before its iteration `n`. -/
private structure ClearedBehind (col row i r : Nat) (mat : Mat) (n : Nat) (m : Mat) : Prop where
  ptr : m.ptr = mat.ptr
  entry : ∀ k < col, ∀ j < row,
    m.get k j = if i < k ∧ k < n then mat.get k j - mat.get k r * mat.get i j else mat.get k j

private theorem clearCol_step {col row i r n : Nat} {mat m : Mat} (hd : mat.Distinct col) (hic : i < col) (hr : r < row)
    (hin : i < n) (hn : n < col) (hz : ∀ j < r, mat.get i j = 0) (h : ClearedBehind col row i r mat n m) :
    ClearedBehind col row i r mat (n + 1) (clearCol i r row n m) := by
  have hptr : m.ptr i ≠ m.ptr n := by
    rw [h.ptr]
    exact fun he => hin.ne (hd i hic n hn he)
  rw [clearCol_eq r row hptr]
  refine ⟨h.ptr, fun k hk j hj => ?_⟩
  have hpivot := h.entry i hic j hj
  have hcur (t : Nat) (ht : t < row) := h.entry n hn t ht
  simp only [lt_irrefl, false_and, and_false, if_false] at hpivot hcur
  rw [Mat.get_setCol]
  by_cases hkn : k = n
  · subst hkn
    rw [if_pos rfl]
    by_cases hrj : r ≤ j
    · rw [if_pos ⟨hrj, hj⟩, if_pos ⟨hin, Nat.lt_succ_self k⟩, hcur j hj, hcur r hr, hpivot]
    · rw [if_neg fun hc => hrj hc.1, if_pos ⟨hin, Nat.lt_succ_self k⟩, hcur j hj, hz j (by omega), mul_zero, sub_zero]
  · have hne : m.ptr k ≠ m.ptr n := by
      rw [h.ptr]
      exact fun he => hkn (hd k hk n hn he)
    rw [if_neg hne, h.entry k hk j hj]
    exact if_congr (by omega) rfl rfl

/-- One iteration of `getRank` is a step of column operations. -/
theorem rankStep_spec {col row i r p : Nat} {mat : Mat} (hd : mat.Distinct col) (hip : i ≤ p) (hpc : p < col)
    (hr : r < row) (hne : mat.get p r ≠ 0) (hz : ∀ k, i ≤ k → k < col → ∀ s < r, mat.get k s = 0) :
    ColumnStep col row i p (mat.get p r) (fun k => if i < k then mat.get (Equiv.swap p i k) r else 0) mat.get
      (rankStep col row i r p mat).get ∧ (rankStep col row i r p mat).Distinct col := by
  have hic : i < col := lt_of_le_of_lt hip hpc
  let m₁ := mat.swap i p
  have hd₁ : m₁.Distinct col := hd.swap hic hpc
  have hm₁ (k : Nat) : m₁.get k = mat.get (Equiv.swap p i k) := by
    funext j
    rw [Mat.get_swap, Equiv.swap_comm]
  have hpivot : m₁.get i = mat.get p := by rw [hm₁, Equiv.swap_apply_right]
  have hne₁ : m₁.get i r ≠ 0 := by rwa [hpivot]
  let m₂ := normalizeCol m₁ i r row
  have hm₂ : m₂ = m₁.setCol i _ := normalizeCol_eq m₁ i r row hne₁
  have hd₂ : m₂.Distinct col := by
    rw [hm₂]
    exact hd₁.setCol _ _
  have hi₂ (j : Nat) (hj : j < row) : m₂.get i j = mat.get p j / mat.get p r := by
    rw [hm₂, Mat.get_setCol_self, hpivot]
    split_ifs with hrj
    · rfl
    · rw [hz p hip hpc j (by omega), zero_div]
  have hk₂ (k : Nat) (hk : k < col) (hki : k ≠ i) : m₂.get k = mat.get (Equiv.swap p i k) := by
    funext j
    rw [hm₂, Mat.get_setCol, if_neg fun he => hki (hd₁ k hk i hic he), hm₁]
  have hrun : ClearedBehind col row i r m₂ col (rankStep col row i r p mat) := by
    have h := forUp_invariant (i + 1) (col - (i + 1)) (clearCol i r row) m₂ (ClearedBehind col row i r m₂)
      ⟨rfl, fun k _ j _ => by rw [if_neg (by omega)]⟩
      (fun n m hin hn h => clearCol_step hd₂ hic hr (by omega) (by omega)
        (fun j hj => by rw [hi₂ j (by omega), hz p hip hpc j hj, zero_div]) h)
    rwa [show i + 1 + (col - (i + 1)) = col by omega] at h
  have hi (j : Nat) (hj : j < row) : (rankStep col row i r p mat).get i j = m₂.get i j := by
    rw [hrun.entry i hic j hj, if_neg (by omega)]
  refine ⟨⟨hip, hpc, hne, fun j hj => ?_, fun k hk hki j hj => ?_⟩, fun j hj k hk he => ?_⟩
  · rw [hi j hj, hi₂ j hj]
  · rw [hi j hj, hrun.entry k hk j hj, hk₂ k hk hki]
    by_cases hik : i < k
    · rw [if_pos ⟨hik, hk⟩, if_pos hik]
    · rw [if_neg fun hc => hik hc.1, if_neg hik, zero_mul, sub_zero]
  · rw [hrun.ptr] at he
    exact hd₂ j hj k hk he

theorem findNonZeroColAt_some {mat : Mat} {i r col p : Nat} (h : findNonZeroColAt mat i r col = some p) :
    i ≤ p ∧ p < col ∧ mat.get p r ≠ 0 := by
  have hp := List.find?_some h
  have hm := List.mem_range'_1.mp (List.mem_of_find?_eq_some h)
  exact ⟨hm.1, by omega, by simpa using hp⟩

theorem findNonZeroColAt_none {mat : Mat} {i r col : Nat} (h : findNonZeroColAt mat i r col = none) (k : Nat)
    (hik : i ≤ k) (hk : k < col) : mat.get k r = 0 := by
  have hn := List.find?_eq_none.mp h k (List.mem_range'_1.mpr (by omega))
  simpa using hn

/-- The search stops at the first row that is not zero from place `i` on. -/
theorem searchRow_spec {mat : Mat} {i col left r : Nat} :
    match searchRow mat i col left r with
    | none => ∀ k, i ≤ k → k < col → ∀ s, r ≤ s → s < r + left → mat.get k s = 0
    | some (r', p) => r ≤ r' ∧ r' < r + left ∧ i ≤ p ∧ p < col ∧ mat.get p r' ≠ 0 ∧
        ∀ k, i ≤ k → k < col → ∀ s, r ≤ s → s < r' → mat.get k s = 0 := by
  induction left generalizing r with
  | zero => exact fun k _ _ s hs hs' => absurd hs' (by omega)
  | succ left ih =>
    rw [searchRow]
    cases hfound : findNonZeroColAt mat i r col with
    | some p =>
      obtain ⟨hip, hpc, hne⟩ := findNonZeroColAt_some hfound
      exact ⟨le_rfl, by omega, hip, hpc, hne, fun k _ _ s hs hs' => absurd hs' (by omega)⟩
    | none =>
      have hzero := findNonZeroColAt_none hfound
      have hrest := ih (r := r + 1)
      dsimp only
      cases hsearch : searchRow mat i col left (r + 1) with
      | none =>
        rw [hsearch] at hrest
        intro k hik hk s hs hs'
        rcases hs.eq_or_lt with rfl | hlt
        · exact hzero k hik hk
        · exact hrest k hik hk s hlt (by omega)
      | some found =>
        rw [hsearch] at hrest
        obtain ⟨hle, hlt, hip, hpc, hne, hz⟩ := hrest
        refine ⟨by omega, by omega, hip, hpc, hne, fun k hik hk s hs hs' => ?_⟩
        rcases hs.eq_or_lt with rfl | hlt'
        · exact hzero k hik hk
        · exact hz k hik hk s hlt' hs'

private theorem rankFrom_eq {col row : Nat} {A : Nat → Nat → SymbolType} (left i r : Nat) (mat : Mat)
    (hd : mat.Distinct col) (hechelon : Echelon col row i r mat.get) (hr : r ≤ row)
    (hkills : ∀ v, Kills col row v A ↔ Kills col row v mat.get) (hi : i + left = min row col) :
    rankFrom col row left i r mat = (toMatrix col row A).rank := by
  induction left generalizing i r mat with
  | zero =>
    have hle := hechelon.le_rank
    have hrow := Matrix.rank_le_height (toMatrix col row mat.get)
    have hcol := Matrix.rank_le_width (toMatrix col row mat.get)
    rw [rankFrom, rank_eq_of_kills_iff hkills]
    omega
  | succ left ih =>
    have hsearch := @searchRow_spec mat i col (row - r) r
    rw [rankFrom]
    cases hfound : searchRow mat i col (row - r) r with
    | none =>
      rw [hfound] at hsearch
      have hzero : Echelon col row i row mat.get := by
        refine ⟨hechelon.le_col, hechelon.pivot, fun k hik hk s hs => ?_⟩
        by_cases hsr : s < r
        · exact hechelon.zero k hik hk s hsr
        · exact hsearch k hik hk s (not_lt.mp hsr) (by omega)
      exact (rank_eq_of_kills_iff hkills ▸ hzero.rank_eq).symm
    | some found =>
      obtain ⟨r', p⟩ := found
      rw [hfound] at hsearch
      obtain ⟨hle, hlt, hip, hpc, hne, hz⟩ := hsearch
      have hrow : r' < row := by omega
      have hechelon' : Echelon col row i r' mat.get := by
        refine ⟨hechelon.le_col, hechelon.pivot, fun k hik hk s hs => ?_⟩
        by_cases hsr : s < r
        · exact hechelon.zero k hik hk s hsr
        · exact hz k hik hk s (not_lt.mp hsr) hs
      obtain ⟨hstep, hd'⟩ := rankStep_spec hd hip hpc hrow hne hechelon'.zero
      exact ih (i + 1) r' _ hd' (hechelon'.step hrow hstep) hrow.le
        (fun v => (hkills v).trans (hstep.kills_iff v)) (by omega)

/-- `getRank` returns the rank. -/
theorem getRank_eq_rank {mat : Mat} {col : Nat} (row : Nat) (hd : mat.Distinct col) :
    getRank mat col row = (toMatrix col row mat.get).rank :=
  rankFrom_eq (min row col) 0 0 mat hd ⟨Nat.zero_le _, fun _ hk => absurd hk (by omega),
    fun _ _ _ _ hs => absurd hs (by omega)⟩ (Nat.zero_le _) (fun _ => Iff.rfl) (Nat.zero_add _)

/-! The elimination stops at the first row that depends on those before it, where `getRank` goes on. -/

private theorem clearEntry_fst (col row i k : Nat) {s s' : Mat × Mat} (h : s.1 = s'.1) :
    (clearEntry col row i k s).1 = (clearEntry col row i k s').1 := by
  unfold clearEntry
  dsimp only
  rw [h]
  split_ifs
  · exact h
  · rfl

private theorem clear_fst (col row i n : Nat) {s s' : Mat × Mat} (h : s.1 = s'.1) :
    (forUp 0 n (clearEntry col row i) s).1 = (forUp 0 n (clearEntry col row i) s').1 := by
  apply forUp_related 0 n (clearEntry col row i) (fun s s' => s.1 = s'.1) h
  intro k t t' _ _ ht
  exact clearEntry_fst col row i k ht

private theorem eliminateFrom_fst (col row left i : Nat) {s s' : Mat × Mat} (h : s.1 = s'.1) :
    (eliminateFrom col row left i s).1 = (eliminateFrom col row left i s').1 := by
  induction left generalizing i s s' with
  | zero => rfl
  | succ left ih =>
    rw [eliminateFrom, eliminateFrom, h]
    cases findNonZeroCol s'.1 i col with
    | none => rfl
    | some p =>
      apply ih (i + 1)
      unfold pivotStep
      rw [h]
      exact clear_fst col row i col rfl

/-- Both return the rank if and only if as many rows as the rank are independent at the start of the matrix. -/
theorem ranks_agree_iff {mat : Mat} (invMat : Mat) {col : Nat} (row : Nat) (hd : mat.Distinct col) :
    let rank := (toMatrix col row mat.get).rank
    ((gaussianElimination mat invMat col row).1 = getRank mat col row ∧ getRank mat col row = rank ∧
      (gaussianElimination mat invMat col row).1 = rank) ↔ (toMatrix col rank mat.get).rank = rank := by
  intro rank
  have hreturned : (gaussianElimination mat invMat col row).1 =
      (gaussianElimination mat (newIdentityMat col) col row).1 :=
    eliminateFrom_fst col row row 0 rfl
  obtain ⟨hinv, hzero⟩ := gaussianElimination_run row hd (fun _ _ _ _ he => he) (newIdentityMat_reduced col)
  have hle := gaussianElimination_le mat (newIdentityMat col) col row
  rw [hreturned, getRank_eq_rank row hd, and_iff_right rfl, and_self]
  generalize gaussianElimination mat (newIdentityMat col) col row = result at hinv hzero hle
  obtain ⟨r, s⟩ := result
  have hunit := isUnit_toMatrix_iff.mpr hinv.invertible
  have hfull : FullRank col r mat.get :=
    ((hinv.expresses.mono hle).fullRank_iff hunit).mp (hinv.reduced.fullRank hinv.le_col)
  apply hfull.eq_rank_iff hle
  intro hlt
  rw [← (hinv.expresses.mono hlt).fullRank_iff hunit]
  exact hinv.reduced.not_fullRank (Nat.lt_succ_self r) (hzero hlt)

/-- One column with the rows 0 and 1. -/
def zeroThenOne : Mat := ⟨id, fun _ j => if j = 1 then 1 else 0⟩

/-- On them all three ranks are 2. -/
theorem ranks_agree_iff_exchanged :
    let rank := (toMatrix 2 2 exchanged.get).rank
    (gaussianElimination exchanged (newIdentityMat 2) 2 2).1 = getRank exchanged 2 2 ∧ getRank exchanged 2 2 = rank ∧
      (gaussianElimination exchanged (newIdentityMat 2) 2 2).1 = rank := by
  intro rank
  have hd : exchanged.Distinct 2 := fun _ _ _ _ he => he
  have hrank : rank = 2 := (getRank_eq_rank 2 hd).symm.trans (by decide +kernel)
  refine (ranks_agree_iff (newIdentityMat 2) 2 hd).mpr ?_
  change (toMatrix 2 rank exchanged.get).rank = rank
  rw [hrank]
  exact hrank

/-- The first row is zero, so the elimination returns 0 where the rank is 1. -/
theorem not_ranks_agree_zeroThenOne :
    let rank := (toMatrix 1 2 zeroThenOne.get).rank
    zeroThenOne.Distinct 1 ∧ (gaussianElimination zeroThenOne (newIdentityMat 1) 1 2).1 = 0 ∧
      getRank zeroThenOne 1 2 = 1 ∧
      rank = 1 ∧ ¬ ((gaussianElimination zeroThenOne (newIdentityMat 1) 1 2).1 = getRank zeroThenOne 1 2 ∧
        getRank zeroThenOne 1 2 = rank ∧ (gaussianElimination zeroThenOne (newIdentityMat 1) 1 2).1 = rank) := by
  intro rank
  have hd : zeroThenOne.Distinct 1 := fun _ _ _ _ he => he
  have hgaussian : (gaussianElimination zeroThenOne (newIdentityMat 1) 1 2).1 = 0 := by decide +kernel
  have hgetRank : getRank zeroThenOne 1 2 = 1 := by decide +kernel
  refine ⟨hd, hgaussian, hgetRank, (getRank_eq_rank 2 hd).symm.trans hgetRank, fun h => ?_⟩
  rw [hgaussian, hgetRank] at h
  exact zero_ne_one h.1

end Soar.Communication
