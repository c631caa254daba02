import Soar.Communication.FiniteField
import Mathlib.Tactic.Ring
import Mathlib.Algebra.BigOperators.Intervals

/-! The tables, kernels and column loops of `FiniteField.cpp` against field arithmetic.
The column loops are stated for any table, also one that repeats a buffer. -/
namespace Soar.Communication
open Soar.Library Finset

private theorem index_high (x y : SymbolType) :
    (x.toNat <<< FIELD_ORDER ||| y.toNat) >>> FIELD_ORDER = x.toNat := by
  have hy := y.toNat_lt
  rw [← Nat.shiftLeft_add_eq_or_of_lt (show y.toNat < 2 ^ FIELD_ORDER from hy), FIELD_ORDER,
    Nat.shiftLeft_eq, Nat.shiftRight_eq_div_pow]
  omega

private theorem index_low (x y : SymbolType) :
    (x.toNat <<< FIELD_ORDER ||| y.toNat) % FIELD_SIZE = y.toNat := by
  have hy := y.toNat_lt
  rw [← Nat.shiftLeft_add_eq_or_of_lt (show y.toNat < 2 ^ FIELD_ORDER from hy), FIELD_ORDER,
    Nat.shiftLeft_eq, show FIELD_SIZE = 256 from rfl]
  omega

/-- The table of products is the multiplication of the field. -/
theorem mulTable_index (x y : SymbolType) : mulTable_O8 (x.toNat <<< FIELD_ORDER ||| y.toNat) = x * y := by
  rw [mulTable_O8, index_high, index_low, SymbolType.ofNat_toNat, SymbolType.ofNat_toNat]
  rfl

@[simp] theorem mulElem_eq (x y : SymbolType) : mulElem x y = x * y := mulTable_index x y
@[simp] theorem addElem_eq (x y : SymbolType) : addElem x y = x + y := rfl
@[simp] theorem subElem_eq (x y : SymbolType) : subElem x y = x - y := rfl

theorem divElem_eq (x y : SymbolType) (h : y ≠ 0) : divElem x y = x / y := by
  have hn : y.toNat ≠ 0 := by
    intro e
    apply h
    rw [← y.ofNat_toNat, e]
    rfl
  rw [divElem, divTable_O8, index_low, if_neg hn, index_high, SymbolType.ofNat_toNat, SymbolType.ofNat_toNat,
    div_eq_mul_inv]
  rfl

private theorem unrolledBlock_eq (entry : Nat → Buffer → Buffer) (base : Nat) (z : Buffer) :
    unrolledBlock entry base z = forUp base 16 entry z := rfl

/-- The unrolled loop is the loop. -/
theorem unrolled_eq (entry : Nat → Buffer → Buffer) (size base : Nat) (z : Buffer) :
    unrolled entry size base z = forUp base size entry z := by
  induction size, base, z using unrolled.induct entry with
  | case1 size base z ih =>
    rw [unrolled, ih, unrolledBlock_eq, ← forUp_split]
    exact congrArg (fun n => forUp base n entry z) (Nat.add_comm 16 size)
  | case2 size base z hn =>
    rw [unrolled]
    exact hn

private theorem kernel_loop (f : Nat → SymbolType → SymbolType) (size : Nat) (z : Buffer) :
    unrolled (fun k z => Function.update z k (f k (z k))) size 0 z =
      fun k => if k < size then f k (z k) else z k := by
  rw [unrolled_eq, forUp_update]
  funext k
  simp only [Nat.zero_le, true_and, Nat.zero_add]

/-- `mulVec` scales the first `size` bytes. -/
theorem mulVec_eq (z x : Buffer) (y : SymbolType) (size : Nat) :
    mulVec z x y size = fun k => if k < size then y * x k else z k := by
  unfold mulVec
  split_ifs with h
  · subst h
    funext k
    simp only [memset, zero_mul]
  · simp only [mulTable_index]
    exact kernel_loop (fun k _ => y * x k) size z

theorem mulVecLocal_eq (x : Buffer) (y : SymbolType) (size : Nat) :
    mulVecLocal x y size = fun k => if k < size then y * x k else x k := by
  unfold mulVecLocal
  split_ifs with h
  · subst h
    funext k
    simp only [memset, zero_mul]
  · simp only [mulTable_index]
    exact kernel_loop (fun _ v => y * v) size x

/-- `addMulVec` adds a multiple to the first `size` bytes. -/
theorem addMulVec_eq (z x : Buffer) (y : SymbolType) (size : Nat) :
    addMulVec z x y size = fun k => if k < size then z k + y * x k else z k := by
  unfold addMulVec
  split_ifs with h
  · subst h
    funext k
    simp only [zero_mul, add_zero, ite_self]
  · simp only [mulTable_index, addElem_eq]
    exact kernel_loop (fun k v => v + y * x k) size z

/-- `mulMat` is the product of a matrix and a vector. -/
theorem mulMat_eq (z : Buffer) (x : Nat → Buffer) (y : Buffer) (col row : Nat) (hc : 0 < col) :
    mulMat z x y col row = fun k => if k < row then ∑ i ∈ range col, y i * x i k else z k := by
  have hi := forUp_invariant 1 (col - 1) (fun i z => addMulVec z (x i) (y i) row) (mulVec z (x 0) (y 0) row)
    (fun j t => t = fun k => if k < row then ∑ i ∈ range j, y i * x i k else z k)
    (by rw [mulVec_eq]; funext k; rw [Finset.sum_range_one])
    (by
      intro j t _ _ ht
      subst ht
      rw [addMulVec_eq]
      funext k
      split_ifs
      · rw [Finset.sum_range_succ]
      · rfl)
  rwa [show 1 + (col - 1) = col by omega] at hi

namespace Mat

theorem get_setCol (mat : Mat) (k : Nat) (v : Buffer) (k' j : Nat) :
    (mat.setCol k v).get k' j = if mat.ptr k' = mat.ptr k then v j else mat.get k' j := by
  simp only [get, setCol, Function.update_apply]
  split <;> rfl

@[simp] theorem get_setCol_self (mat : Mat) (k : Nat) (v : Buffer) (j : Nat) : (mat.setCol k v).get k j = v j := by
  rw [get_setCol, if_pos rfl]

@[simp] theorem setCol_setCol (mat : Mat) (k : Nat) (v w : Buffer) :
    (mat.setCol k v).setCol k w = mat.setCol k w := by
  simp only [setCol, Function.update_idem]

@[simp] theorem setCol_self (mat : Mat) (k : Nat) : mat.setCol k (mat.get k) = mat := by
  cases mat
  exact congrArg (Mat.mk _) (Function.update_eq_self _ _)

@[simp] theorem get_swap (mat : Mat) (i j k r : Nat) : (mat.swap i j).get k r = mat.get (Equiv.swap i j k) r := rfl

theorem set_eq (mat : Mat) (k j : Nat) (v : SymbolType) :
    mat.set k j v = mat.setCol k (Function.update (mat.get k) j v) := rfl

/-- The first `col` entries designate pairwise different buffers. -/
def Distinct (col : Nat) (mat : Mat) : Prop := ∀ j < col, ∀ k < col, mat.ptr j = mat.ptr k → j = k

theorem Distinct.setCol {col : Nat} {mat : Mat} (h : mat.Distinct col) (k : Nat) (v : Buffer) :
    (mat.setCol k v).Distinct col := h

theorem Distinct.swap {col : Nat} {mat : Mat} (h : mat.Distinct col) {i j : Nat} (hi : i < col) (hj : j < col) :
    (mat.swap i j).Distinct col := by
  have hlt (k : Nat) (hk : k < col) : Equiv.swap i j k < col := by
    rw [Equiv.swap_apply_def]
    split_ifs <;> assumption
  intro a ha b hb he
  exact (Equiv.swap i j).injective (h _ (hlt a ha) _ (hlt b hb) he)

end Mat

/-- A loop from the end of a column down to entry `i` whose body reads no entry that it has written. -/
theorem colLoop_eq (mat : Mat) (i k row : Nat) (f : Nat → Mat → SymbolType)
    (g : Buffer) (hf : ∀ j w, i ≤ j → (∀ t ≤ j, w t = mat.get k t) → f j (mat.setCol k w) = g j) :
    forDown i (row - i) (fun j m => m.set k j (f j m)) mat =
      mat.setCol k (fun j => if i ≤ j ∧ j < row then g j else mat.get k j) := by
  have hi := forDown_invariant i (row - i) (fun j m => m.set k j (f j m)) mat
    (fun n m => m = mat.setCol k (fun j => if i + n ≤ j ∧ j < row then g j else mat.get k j))
    (by
      have he : (fun j => if i + (row - i) ≤ j ∧ j < row then g j else mat.get k j) = mat.get k := by
        funext j
        rw [if_neg (by omega)]
      rw [he, Mat.setCol_self])
    (by
      intro n m hn hm
      subst hm
      rw [hf (i + n) _ (by omega) (by intro t ht; rw [if_neg (by omega)]), Mat.set_eq, Mat.setCol_setCol]
      congr 1
      funext j
      by_cases hj : j = i + n
      · subst hj
        rw [Function.update_self, if_pos (by omega)]
      · rw [Function.update_of_ne hj, Mat.get_setCol_self]
        exact if_congr (by omega) rfl rfl)
  rwa [Nat.add_zero] at hi

theorem scaleCol_eq (mat : Mat) (i : Nat) (c : SymbolType) (row : Nat) :
    scaleCol mat i c row =
      mat.setCol i (fun j => if i ≤ j ∧ j < row then mat.get i j * c else mat.get i j) := by
  apply colLoop_eq mat i i row (fun j m => mulElem (m.get i j) c)
  intro j w _ hw
  rw [Mat.get_setCol_self, hw j le_rfl, mulElem_eq]

/-- The column is reduced entry by entry also when `mat[k]` and `mat[i]` are one buffer. -/
theorem reduceCol_eq (mat : Mat) (i k : Nat) (c : SymbolType) (row : Nat) :
    reduceCol mat i k c row =
      mat.setCol k (fun j => if i ≤ j ∧ j < row then mat.get k j - mat.get i j * c else mat.get k j) := by
  apply colLoop_eq mat i k row (fun j m => subElem (m.get k j) (mulElem (m.get i j) c))
  intro j w _ hw
  have hi : (mat.setCol k w).get i j = mat.get i j := by
    rw [Mat.get_setCol]
    split_ifs with h
    · rw [hw j le_rfl, Mat.get, Mat.get, h]
    · rfl
  rw [hi, Mat.get_setCol_self, hw j le_rfl, subElem_eq, mulElem_eq]

end Soar.Communication
