import Soar.Communication.RankComputations

/-! `getRank` over a matrix of which only `col` columns of `row` entries may be accessed, with its inner
loop as it is written: without a bound. -/
namespace Soar.Communication
open Soar.Library Soar.Library.ColumnReduction

namespace Mat

variable (col row : Nat)

/-- `mat[k][j]`; an access outside the matrix fails. -/
def get? (mat : Mat) (k j : Nat) : Option SymbolType := if k < col ∧ j < row then some (mat.get k j) else none

/-- `mat[k][j] = v`. -/
def set? (mat : Mat) (k j : Nat) (v : SymbolType) : Option Mat :=
  if k < col ∧ j < row then some (mat.set k j v) else none

/-- `std::swap(mat[i], mat[j])`. -/
def swap? (mat : Mat) (i j : Nat) : Option Mat := if i < col ∧ j < col then some (mat.swap i j) else none

end Mat

section Run

variable (col row : Nat)

/-- The loop over `j` in the search for a pivot, of which `left` iterations remain. -/
def nonZeroColM (mat : Mat) (r : Nat) : (left j : Nat) → Option (Option Nat)
  | 0, _ => some none
  | left + 1, j => do
    let v ← mat.get? col row j r
    if v ≠ 0 then some (some j) else nonZeroColM mat r left (j + 1)

/-- `while (true)`, for at most `fuel` iterations: the row and column of the pivot, or `none` where
`getRank` returns. Without fuel the run has no result. -/
def searchRowM (mat : Mat) (i : Nat) : (fuel r : Nat) → Option (Option (Nat × Nat))
  | 0, _ => none
  | fuel + 1, r => do
    match ← nonZeroColM col row mat r (col - i) i with
    | some nonZeroCol => some (some (r, nonZeroCol))
    | none => if r + 1 ≥ row then some none else searchRowM mat i fuel (r + 1)

def normalizeColM (mat : Mat) (i r : Nat) : Option Mat :=
  forDownM r (row - r) (fun j mat => do
    let v ← mat.get? col row i j
    let w ← mat.get? col row i r
    mat.set? col row i j (divElem v w)) mat

def clearColM (i r k : Nat) (mat : Mat) : Option Mat := do
  let v ← mat.get? col row k r
  if v ≠ 0 then
    forDownM r (row - r) (fun j mat => do
      let u ← mat.get? col row k j
      let v ← mat.get? col row i j
      let w ← mat.get? col row k r
      mat.set? col row k j (subElem u (mulElem v w))) mat
  else some mat

/-- The loop body of `getRank` once the pivot is found. -/
def rankStepM (i r nonZeroCol : Nat) (mat : Mat) : Option Mat := do
  let mat ← mat.swap? col i nonZeroCol
  let mat ← normalizeColM col row mat i r
  forUpM (i + 1) (col - (i + 1)) (clearColM col row i r) mat

/-- The iterations from `i` on, of which `left` remain. -/
def rankFromM (fuel : Nat) : (left i r : Nat) → Mat → Option Nat
  | 0, i, _, _ => some i
  | left + 1, i, r, mat => do
    match ← searchRowM col row mat i fuel r with
    | none => some i
    | some (r, nonZeroCol) => rankFromM fuel left (i + 1) r (← rankStepM col row i r nonZeroCol mat)

/-- `getRank`, in which no run of the inner loop takes more than `fuel` iterations. -/
def getRankM (fuel : Nat) (mat : Mat) : Option Nat := rankFromM col row fuel (min row col) 0 0 mat

end Run

section Confined

variable {col row : Nat} {mat : Mat}

theorem Mat.get?_eq {k j : Nat} (hk : k < col) (hj : j < row) : mat.get? col row k j = some (mat.get k j) :=
  if_pos ⟨hk, hj⟩

theorem Mat.set?_eq {k j : Nat} (hk : k < col) (hj : j < row) (v : SymbolType) :
    mat.set? col row k j v = some (mat.set k j v) := if_pos ⟨hk, hj⟩

theorem nonZeroColM_eq {r : Nat} (hr : r < row) (left j : Nat) (hleft : j + left ≤ col) :
    nonZeroColM col row mat r left j = some ((List.range' j left).find? fun j => mat.get j r ≠ 0) := by
  induction left generalizing j with
  | zero => rfl
  | succ left ih =>
    rw [nonZeroColM, Mat.get?_eq (by omega) hr, List.range'_succ]
    dsimp only [Option.bind_eq_bind, Option.bind_some]
    split_ifs with hne
    · rw [List.find?_cons_of_pos (by simpa using hne)]
    · rw [List.find?_cons_of_neg (by simpa using hne)]
      exact ih (j + 1) (by omega)

/-- The loop without a bound ends at the last row at the latest. -/
theorem searchRowM_eq {i : Nat} (hi : i ≤ col) (fuel r : Nat) (hr : r < row) (hfuel : row - r ≤ fuel) :
    searchRowM col row mat i fuel r = some (searchRow mat i col (row - r) r) := by
  induction fuel generalizing r with
  | zero => omega
  | succ fuel ih =>
    obtain ⟨left, hleft⟩ := Nat.exists_eq_succ_of_ne_zero (show row - r ≠ 0 by omega)
    have hfind : nonZeroColM col row mat r (col - i) i = some (findNonZeroColAt mat i r col) :=
      nonZeroColM_eq hr _ _ (by omega)
    rw [searchRowM, hfind, hleft, searchRow]
    dsimp only [Option.bind_eq_bind, Option.bind_some]
    cases findNonZeroColAt mat i r col with
    | some p => rfl
    | none =>
      dsimp only
      by_cases hlast : r + 1 ≥ row
      · obtain rfl : left = 0 := by omega
        rw [if_pos hlast]
        rfl
      · rw [if_neg hlast, ih (r + 1) (by omega) (by omega)]
        congr 2
        omega

theorem normalizeColM_eq {i r : Nat} (hi : i < col) (hr : r < row) (mat : Mat) :
    normalizeColM col row mat i r = some (normalizeCol mat i r row) := by
  apply forDownM_eq_some r (row - r) mat
  intro j m hrj hj
  have hj : j < row := by omega
  simp only [Mat.get?_eq hi hj, Mat.get?_eq hi hr, Mat.set?_eq hi hj, Option.bind_eq_bind, Option.bind_some]

theorem clearColM_eq {i r k : Nat} (hi : i < col) (hr : r < row) (hk : k < col) (mat : Mat) :
    clearColM col row i r k mat = some (clearCol i r row k mat) := by
  unfold clearColM clearCol
  rw [Mat.get?_eq hk hr]
  dsimp only [Option.bind_eq_bind, Option.bind_some]
  split_ifs
  · apply forDownM_eq_some r (row - r) mat
    intro j m hrj hj
    have hj : j < row := by omega
    simp only [Mat.get?_eq hi hj, Mat.get?_eq hk hj, Mat.get?_eq hk hr, Mat.set?_eq hk hj, Option.bind_some]
  · rfl

/-- A step of the rank computation stays inside the matrix. -/
theorem rankStepM_eq {i r p : Nat} (hi : i < col) (hp : p < col) (hr : r < row) (mat : Mat) :
    rankStepM col row i r p mat = some (rankStep col row i r p mat) := by
  have hswap : mat.swap? col i p = some (mat.swap i p) := if_pos ⟨hi, hp⟩
  unfold rankStepM
  rw [hswap, Option.bind_eq_bind, Option.bind_some, normalizeColM_eq hi hr, Option.bind_some]
  exact forUpM_eq_some _ _ _ fun k m _ hk => clearColM_eq hi hr (by omega) m

/-- The run stays in the matrix, and every inner loop ends. -/
theorem rankFromM_eq {fuel : Nat} (hfuel : row ≤ fuel) (left i r : Nat) (mat : Mat) (hi : i + left ≤ col)
    (hr : left = 0 ∨ r < row) : rankFromM col row fuel left i r mat = some (rankFrom col row left i r mat) := by
  induction left generalizing i r mat with
  | zero => rfl
  | succ left ih =>
    have hrow : r < row := hr.resolve_left (Nat.succ_ne_zero left)
    have hsearch := @searchRow_spec mat i col (row - r) r
    rw [rankFromM, rankFrom, searchRowM_eq (by omega) fuel r hrow (by omega)]
    dsimp only [Option.bind_eq_bind, Option.bind_some]
    cases hfound : searchRow mat i col (row - r) r with
    | none => rfl
    | some found =>
      obtain ⟨r', p⟩ := found
      rw [hfound] at hsearch
      obtain ⟨-, hlt, -, hp, -⟩ := hsearch
      dsimp only
      rw [rankStepM_eq (by omega) hp (by omega)]
      exact ih (i + 1) r' _ (by omega) (.inr (by omega))

end Confined

/-- `getRank` ends, stays in the matrix and returns the rank; no run of its inner loop takes more
iterations than there are rows. -/
theorem getRankM_eq_rank {mat : Mat} {col : Nat} (row : Nat) (hd : mat.Distinct col) :
    ∀ fuel, row ≤ fuel → getRankM col row fuel mat = some (toMatrix col row mat.get).rank := by
  intro fuel hfuel
  have hrun : getRankM col row fuel mat = some (getRank mat col row) := by
    apply rankFromM_eq hfuel (min row col) 0 0 mat (by omega)
    rcases Nat.eq_zero_or_pos row with rfl | hrow
    · exact .inl (Nat.zero_min col)
    · exact .inr hrow
  rw [hrun, getRank_eq_rank row hd]

/-- The two unit columns, exchanged. -/
theorem getRankM_eq_rank_exchanged : getRankM 2 2 2 exchanged = some (toMatrix 2 2 exchanged.get).rank :=
  getRankM_eq_rank 2 (fun _ _ _ _ he => he) 2 le_rfl

end Soar.Communication
