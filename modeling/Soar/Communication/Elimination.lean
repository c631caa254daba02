import Soar.Communication.Kernels
import Soar.Library.ColumnReduction

/-! `gaussianElimination` over pairwise distinct columns is a column reduction. -/
namespace Soar.Communication
open Soar.Library Soar.Library.ColumnReduction Finset

/-- The state of the clearing loop before its iteration `n`. -/
private structure Cleared (col row i : Nat) (mat invMat : Mat) (n : Nat) (s : Mat × Mat) : Prop where
  ptr : s.1.ptr = mat.ptr
  invPtr : s.2.ptr = invMat.ptr
  entry : ∀ k < col, ∀ r < row, s.1.get k r =
    if k < n ∧ k ≠ i then mat.get k r - mat.get k i * mat.get i r else mat.get k r
  invEntry : ∀ k < col, ∀ l < col, s.2.get k l =
    if k < n ∧ k ≠ i then invMat.get k l - mat.get k i * invMat.get i l else invMat.get k l

private theorem cleared_succ {col size i n : Nat} {f f' g : Nat → Nat → SymbolType} {a : Nat → SymbolType}
    (h : ∀ k < col, ∀ r < size, f k r = if k < n ∧ k ≠ i then g k r - a k * g i r else g k r)
    (hother : ∀ k < col, k ≠ n → ∀ r < size, f' k r = f k r)
    (hcol : ∀ r < size, f' n r = if n = i then g n r else g n r - a n * g i r) :
    ∀ k < col, ∀ r < size, f' k r = if k < n + 1 ∧ k ≠ i then g k r - a k * g i r else g k r := by
  intro k hk r hr
  by_cases hkn : k = n
  · subst hkn
    rw [hcol r hr]
    by_cases hki : k = i
    · rw [if_pos hki, if_neg fun hc => hc.2 hki]
    · rw [if_neg hki, if_pos ⟨Nat.lt_succ_self k, hki⟩]
  · rw [hother k hk hkn r hr, h k hk r hr]
    exact if_congr (by omega) rfl rfl

private theorem clearEntry_step {col row i n : Nat} {mat invMat : Mat} {s : Mat × Mat}
    (hd : mat.Distinct col) (hd' : invMat.Distinct col) (hic : i < col) (hir : i < row) (hn : n < col)
    (hz : ∀ r < i, mat.get i r = 0) (h : Cleared col row i mat invMat n s) :
    Cleared col row i mat invMat (n + 1) (clearEntry col row i n s) := by
  obtain ⟨m, w⟩ := s
  have hpiv := h.entry i hic
  have hinv := h.invEntry i hic
  have hcur := h.entry n hn
  have hcur' := h.invEntry n hn
  simp only [ne_eq, not_true_eq_false, and_false, if_false, lt_irrefl, false_and] at hpiv hinv hcur hcur'
  by_cases hskip : n = i ∨ m.get n i = 0
  · -- `continue`: entry `i` of this column needs no clearing
    have he : clearEntry col row i n (m, w) = (m, w) := by simp only [clearEntry, if_pos hskip]
    rw [he]
    have hzero : n ≠ i → mat.get n i = 0 := fun hne => by
      rw [← hcur i hir]
      exact hskip.resolve_left hne
    refine ⟨h.ptr, h.invPtr, cleared_succ h.entry (fun _ _ _ _ _ => rfl) fun r hr => ?_,
      cleared_succ h.invEntry (fun _ _ _ _ _ => rfl) fun l hl => ?_⟩
    · rw [hcur r hr]
      split_ifs with hni
      · rfl
      · rw [hzero hni, zero_mul, sub_zero]
    · rw [hcur' l hl]
      split_ifs with hni
      · rfl
      · rw [hzero hni, zero_mul, sub_zero]
  · have hni : n ≠ i := fun e => hskip (Or.inl e)
    have he : clearEntry col row i n (m, w) = (reduceCol m i n (m.get n i) row,
        w.setCol n (addMulVec (w.buf (w.ptr n)) (w.buf (w.ptr i)) (m.get n i) col)) := by
      simp only [clearEntry, if_neg hskip]
    rw [he]
    refine ⟨by rw [reduceCol_eq]; exact h.ptr, h.invPtr, cleared_succ h.entry (fun k hk hkn r hr => ?_) fun r hr => ?_,
      cleared_succ h.invEntry (fun k hk hkn l hl => ?_) fun l hl => ?_⟩
    · have hne : m.ptr k ≠ m.ptr n := by
        have hp : m.ptr = mat.ptr := h.ptr
        rw [hp]
        exact fun e => hkn (hd k hk n hn e)
      rw [reduceCol_eq, Mat.get_setCol, if_neg hne]
    · rw [if_neg hni, reduceCol_eq, Mat.get_setCol_self, hcur i hir, hcur r hr, hpiv r hr]
      by_cases hri : i ≤ r
      · rw [if_pos ⟨hri, hr⟩, mul_comm]
      · rw [if_neg (fun hc => hri hc.1), hz r (by omega), mul_zero, sub_zero]
    · have hne : w.ptr k ≠ w.ptr n := by
        have hp : w.ptr = invMat.ptr := h.invPtr
        rw [hp]
        exact fun e => hkn (hd' k hk n hn e)
      rw [Mat.get_setCol, if_neg hne]
    · have hn' : w.buf (w.ptr n) l = invMat.get n l := hcur' l hl
      have hi' : w.buf (w.ptr i) l = invMat.get i l := hinv l hl
      have hc : m.get n i = mat.get n i := hcur i hir
      rw [if_neg hni, Mat.get_setCol_self, addMulVec_eq]
      dsimp only
      rw [if_pos hl, hn', hi', hc, CharTwo.sub_eq_add]

private theorem clear_run (row : Nat) {col i : Nat} {mat invMat : Mat}
    (hd : mat.Distinct col) (hd' : invMat.Distinct col) (hic : i < col) (hir : i < row)
    (hz : ∀ r < i, mat.get i r = 0) :
    Cleared col row i mat invMat col (forUp 0 col (clearEntry col row i) (mat, invMat)) := by
  have h := forUp_invariant 0 col (clearEntry col row i) (mat, invMat)
    (fun n s => Cleared col row i mat invMat n s)
    ⟨rfl, rfl, fun k _ r _ => by simp, fun k _ l _ => by simp⟩
    (fun n s _ hn h => clearEntry_step hd hd' hic hir (by omega) hz h)
  rwa [Nat.zero_add] at h

/-- One iteration of the elimination is one step of column reduction, on the matrix and
on the recorded combinations alike. -/
theorem pivotStep_spec {col row i p : Nat} {mat invMat : Mat} (hd : mat.Distinct col)
    (hd' : invMat.Distinct col) (hir : i < row) (hip : i ≤ p) (hpc : p < col)
    (hr : Reduced col i mat.get) (hp : mat.get p i ≠ 0) :
    let s := pivotStep col row i p (mat, invMat)
    PivotStep col row i p mat.get invMat.get s.1.get s.2.get ∧ s.1.Distinct col ∧ s.2.Distinct col := by
  intro s
  have hic : i < col := by omega
  let m₁ := mat.swap p i
  let w₁ := invMat.swap p i
  let c := divElem 1 (m₁.get i i)
  have hpi : m₁.get i i = mat.get p i := by simp [m₁]
  have hc : c = 1 / mat.get p i := by
    rw [← hpi]
    exact divElem_eq _ _ (by rwa [hpi])
  let m₂ := scaleCol m₁ i c row
  let w₂ := w₁.setCol i (mulVecLocal (w₁.buf (w₁.ptr i)) c col)
  have hs : s = forUp 0 col (clearEntry col row i) (m₂, w₂) := rfl
  have hm₂ : m₂ = m₁.setCol i (fun j => if i ≤ j ∧ j < row then m₁.get i j * c else m₁.get i j) := scaleCol_eq _ _ _ _
  have hd₁ : m₁.Distinct col := hd.swap hpc hic
  have hd₂ : m₂.Distinct col := by rw [hm₂]; exact hd₁.setCol _ _
  have hw₂ : w₂.Distinct col := (hd'.swap hpc hic).setCol _ _
  have hlow (r : Nat) (hri : r < i) : mat.get p r = 0 := by
    rw [hr p hpc r hri, if_neg (by omega)]
  have hmi (r : Nat) (hrow : r < row) : m₂.get i r = mat.get p r / mat.get p i := by
    rw [hm₂, Mat.get_setCol_self]
    have he : m₁.get i r = mat.get p r := by simp [m₁]
    rw [he, hc]
    split_ifs with h
    · rw [mul_one_div]
    · rw [hlow r (by omega), zero_div]
  have hmk (k : Nat) (hk : k < col) (hki : k ≠ i) (r : Nat) : m₂.get k r = mat.get (Equiv.swap p i k) r := by
    rw [hm₂, Mat.get_setCol, if_neg fun e => hki (hd₁ k hk i hic e)]
    rfl
  have hwi (l : Nat) (hl : l < col) : w₂.get i l = invMat.get p l / mat.get p i := by
    have he : w₁.buf (w₁.ptr i) l = invMat.get p l := by simp [w₁, Mat.swap, Mat.get]
    rw [Mat.get_setCol_self, mulVecLocal_eq]
    dsimp only
    rw [if_pos hl, he, hc, one_div_mul_eq_div]
  have hwk (k : Nat) (hk : k < col) (hki : k ≠ i) (l : Nat) : w₂.get k l = invMat.get (Equiv.swap p i k) l := by
    have hdw : w₁.Distinct col := hd'.swap hpc hic
    rw [Mat.get_setCol, if_neg fun e => hki (hdw k hk i hic e)]
    rfl
  have hrun := clear_run row hd₂ hw₂ hic hir fun r hri => by
    rw [hmi r (by omega), hlow r hri, zero_div]
  rw [← hs] at hrun
  refine ⟨⟨hir, hip, hpc, hp, ?_, ?_, ?_, ?_⟩, ?_, ?_⟩
  · intro r hrow
    rw [hrun.entry i hic r hrow, if_neg (by simp), hmi r hrow]
  · intro k hk hki r hrow
    rw [hrun.entry k hk r hrow, if_pos ⟨hk, hki⟩, hrun.entry i hic r hrow, if_neg (by simp),
      hmk k hk hki r, hmk k hk hki i]
  · intro l hl
    rw [hrun.invEntry i hic l hl, if_neg (by simp), hwi l hl]
  · intro k hk hki l hl
    rw [hrun.invEntry k hk l hl, if_pos ⟨hk, hki⟩, hrun.invEntry i hic l hl, if_neg (by simp),
      hwk k hk hki l, hmk k hk hki i]
  · intro j hj k hk he
    rw [hrun.ptr] at he
    exact hd₂ j hj k hk he
  · intro j hj k hk he
    rw [hrun.invPtr] at he
    exact hw₂ j hj k hk he

/-- The pivot that is found is not zero. -/
theorem findNonZeroCol_some {mat : Mat} {i col p : Nat} (h : findNonZeroCol mat i col = some p) :
    i ≤ p ∧ p < col ∧ mat.get p i ≠ 0 := by
  have hp := List.find?_some h
  have hm := List.mem_range'_1.mp (List.mem_of_find?_eq_some h)
  exact ⟨hm.1, by omega, by simpa using hp⟩

/-- If no pivot is found, the rest of the row is zero. -/
theorem findNonZeroCol_none {mat : Mat} {i col : Nat} (h : findNonZeroCol mat i col = none) (k : Nat)
    (hik : i ≤ k) (hk : k < col) : mat.get k i = 0 := by
  have hn := List.find?_eq_none.mp h k (List.mem_range'_1.mpr (by omega))
  simpa using hn

/-- What holds of the matrices before iteration `i`, against the columns `A` at the start. -/
structure EliminationInv (col row : Nat) (A : Nat → Nat → SymbolType) (i : Nat) (s : Mat × Mat) : Prop where
  distinct : s.1.Distinct col
  invDistinct : s.2.Distinct col
  expresses : Expresses col row A s.1.get s.2.get
  reduced : Reduced col i s.1.get
  kills : ∀ v, Kills col row v s.1.get → Kills col row v A
  le_col : i ≤ col

/-- The recorded combinations can also be undone. -/
structure ReductionInv (col row : Nat) (A : Nat → Nat → SymbolType) (i : Nat) (s : Mat × Mat) : Prop
    extends EliminationInv col row A i s where
  invertible : FullRank col col s.2.get

private theorem eliminate_step {col row i p : Nat} {A : Nat → Nat → SymbolType} {s : Mat × Mat}
    (h : ReductionInv col row A i s) (hir : i < row) (hp : findNonZeroCol s.1 i col = some p) :
    ReductionInv col row A (i + 1) (pivotStep col row i p s) := by
  obtain ⟨hip, hpc, hne⟩ := findNonZeroCol_some hp
  obtain ⟨hstep, hd, hd'⟩ := pivotStep_spec h.distinct h.invDistinct hir hip hpc h.reduced hne
  exact {
    distinct := hd
    invDistinct := hd'
    expresses := hstep.expresses h.expresses
    reduced := hstep.reduced h.reduced
    kills := fun v hv => h.kills v ((hstep.columns.kills_iff v).mpr hv)
    le_col := by omega
    invertible := fun v hv => h.invertible v ((hstep.combinations.kills_iff v).mpr hv) }

private theorem eliminate_run {col row : Nat} {A : Nat → Nat → SymbolType} (left i : Nat) (s : Mat × Mat)
    (h : ReductionInv col row A i s) (hi : i + left = row) :
    let r := eliminateFrom col row left i s
    ReductionInv col row A r.1 r.2 ∧ (r.1 < row → ∀ k, r.1 ≤ k → k < col → r.2.1.get k r.1 = 0) := by
  induction left generalizing i s with
  | zero =>
    have he : i = row := by omega
    subst he
    exact ⟨h, fun hlt => absurd hlt (lt_irrefl _)⟩
  | succ left ih =>
    rw [eliminateFrom]
    cases hp : findNonZeroCol s.1 i col with
    | none => exact ⟨h, fun _ => findNonZeroCol_none hp⟩
    | some p => exact ih (i + 1) _ (eliminate_step h (by omega) hp) (by omega)

private theorem eliminateFrom_le (col row left i : Nat) (s : Mat × Mat) (hi : i + left = row) :
    (eliminateFrom col row left i s).1 ≤ row := by
  induction left generalizing i s with
  | zero => exact le_rfl
  | succ left ih =>
    rw [eliminateFrom]
    cases findNonZeroCol s.1 i col with
    | none => exact show i ≤ row by omega
    | some p => exact ih (i + 1) _ (by omega)

/-- The elimination counts no more rows than there are. -/
theorem gaussianElimination_le (mat invMat : Mat) (col row : Nat) : (gaussianElimination mat invMat col row).1 ≤ row :=
  eliminateFrom_le col row row 0 _ (Nat.zero_add row)

theorem newIdentityMat_reduced (col : Nat) : Reduced col col (newIdentityMat col).get := fun _ _ _ _ => rfl

/-- What the elimination leaves of distinct columns, with an identity to record the combinations in. -/
theorem gaussianElimination_run {mat invMat : Mat} {col : Nat} (row : Nat) (hd : mat.Distinct col)
    (hd' : invMat.Distinct col) (hid : Reduced col col invMat.get) :
    let r := gaussianElimination mat invMat col row
    ReductionInv col row mat.get r.1 r.2 ∧ (r.1 < row → ∀ k, r.1 ≤ k → k < col → r.2.1.get k r.1 = 0) :=
  eliminate_run row 0 (mat, invMat)
    { distinct := hd
      invDistinct := hd'
      expresses := hid.expresses
      reduced := fun _ _ r hr => absurd hr (by omega)
      kills := fun _ hv => hv
      le_col := Nat.zero_le _
      invertible := hid.fullRank le_rfl } (Nat.zero_add row)

/-- Over distinct columns the elimination reaches `row` exactly when the columns have full
row rank, and then the recorded combinations reduce the given columns to the identity. -/
theorem gaussianElimination_spec (mat : Mat) (col row : Nat) (hd : mat.Distinct col) :
    let r := gaussianElimination mat (newIdentityMat col) col row
    (r.1 = row ↔ FullRank col row mat.get) ∧ (r.1 = row → EliminationInv col row mat.get row r.2) := by
  intro r
  obtain ⟨hinv, hzero⟩ := gaussianElimination_run row hd (fun _ _ _ _ he => he) (newIdentityMat_reduced col)
  refine ⟨⟨fun he => ?_, fun hf => ?_⟩, fun he => ?_⟩
  · intro v hv
    have hle : row ≤ col := he ▸ hinv.le_col
    have hreduced : Reduced col row r.2.1.get := by
      have hr := hinv.reduced
      rwa [he] at hr
    exact hreduced.fullRank hle v (hinv.expresses.kills v hv)
  · by_contra hne
    have hlt : r.1 < row := lt_of_le_of_ne (gaussianElimination_le mat _ col row) hne
    exact hinv.reduced.not_fullRank hlt (hzero hlt) fun v hv => hf v (hinv.kills v hv)
  · have h := hinv.toEliminationInv
    rwa [he] at h

end Soar.Communication
