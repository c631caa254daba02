import Soar.Communication.Kernels
import Soar.Library.ColumnReduction

/-! The kernels of `FiniteField.cpp` over vectors of which only the first entries may be accessed. -/
namespace Soar.Communication
open Soar.Library Soar.Library.ColumnReduction

section Access

variable {α : Type}

/-- `x[k]`; a read outside the first `n` entries fails. -/
def readBelow (n : Nat) (x : Nat → α) (k : Nat) : Option α := if k < n then some (x k) else none

/-- `z[k] = v`; a write outside the first `n` entries fails. -/
def writeBelow (n : Nat) (z : Nat → α) (k : Nat) (v : α) : Option (Nat → α) :=
  if k < n then some (Function.update z k v) else none

theorem readBelow_eq {n k : Nat} (h : k < n) (x : Nat → α) : readBelow n x k = some (x k) := if_pos h

theorem writeBelow_eq {n k : Nat} (h : k < n) (z : Nat → α) (v : α) :
    writeBelow n z k v = some (Function.update z k v) := if_pos h

end Access

/-- The sixteen statements of `unrolledBlock`, each of which can fail. -/
def unrolledBlockM (entry : Nat → Buffer → Option Buffer) (base : Nat) (z : Buffer) : Option Buffer :=
  [0, 1, 2, 3, 4, 5, 6, 7, 8, 9, 10, 11, 12, 13, 14, 15].foldlM (fun z k => entry (base + k) z) z

/-- The loops of `unrolled`. -/
def unrolledM (entry : Nat → Buffer → Option Buffer) : (size base : Nat) → Buffer → Option Buffer
  | size + 16, base, z => (unrolledBlockM entry base z).bind (unrolledM entry size (base + 16))
  | size, base, z => forUpM base size entry z

def memsetBelow (n : Nat) (z : Buffer) (size : Nat) : Option Buffer :=
  forUpM 0 size (fun k z => writeBelow n z k 0) z

/-- `mulVec(z, x, y, size)`, confined to the first `n` entries of its vectors. -/
def mulVecBelow (n : Nat) (z x : Buffer) (y : SymbolType) (size : Nat) : Option Buffer :=
  if y = 0 then memsetBelow n z size
  else
    let y_index := y.toNat <<< FIELD_ORDER
    unrolledM (fun k z => do
      let v ← readBelow n x k
      writeBelow n z k (mulTable_O8 (y_index ||| v.toNat))) size 0 z

/-- The overload `mulVec(x, y, size)`. -/
def mulVecLocalBelow (n : Nat) (x : Buffer) (y : SymbolType) (size : Nat) : Option Buffer :=
  if y = 0 then memsetBelow n x size
  else
    let y_index := y.toNat <<< FIELD_ORDER
    unrolledM (fun k x => do
      let v ← readBelow n x k
      writeBelow n x k (mulTable_O8 (y_index ||| v.toNat))) size 0 x

/-- `addMulVec(z, x, y, size)`. -/
def addMulVecBelow (n : Nat) (z x : Buffer) (y : SymbolType) (size : Nat) : Option Buffer :=
  if y = 0 then some z
  else
    let y_index := y.toNat <<< FIELD_ORDER
    unrolledM (fun k z => do
      let v ← readBelow n x k
      let w ← readBelow n z k
      writeBelow n z k (addElem w (mulTable_O8 (y_index ||| v.toNat)))) size 0 z

/-- `mulMat`, confined to `col` columns and as many scalars, of `row` entries each. -/
def mulMatBelow (z : Buffer) (x : Nat → Buffer) (y : Buffer) (col row : Nat) : Option Buffer := do
  let x₀ ← readBelow col x 0
  let y₀ ← readBelow col y 0
  let z ← mulVecBelow row z x₀ y₀ row
  forUpM 1 (col - 1) (fun i z => do
    let xᵢ ← readBelow col x i
    let yᵢ ← readBelow col y i
    addMulVecBelow row z xᵢ yᵢ row) z

section Confined

variable {n size : Nat} {entry : Nat → Buffer → Option Buffer} {f : Nat → Buffer → Buffer}

theorem unrolledBlockM_eq (entry : Nat → Buffer → Option Buffer) (base : Nat) (z : Buffer) :
    unrolledBlockM entry base z = forUpM base 16 entry z :=
  (forUpM_eq_foldlM base 16 entry z).symm

/-- Statements that succeed below `n` are not executed elsewhere. -/
theorem unrolledM_eq (h : ∀ k < n, ∀ z, entry k z = some (f k z)) (size base : Nat) (z : Buffer)
    (hsize : base + size ≤ n) :
    unrolledM entry size base z = some (unrolled f size base z) := by
  induction size, base, z using unrolled.induct f with
  | case1 size base z ih =>
    rw [unrolledM, unrolledBlockM_eq, forUpM_eq_some base 16 z fun j t _ hj => h j (by omega) t]
    exact ih (by omega)
  | case2 size base z hn =>
    rw [unrolledM, unrolled]
    · exact forUpM_eq_some base size z fun j t _ hj => h j (by omega) t
    · exact hn
    · exact hn

theorem memsetBelow_eq (z : Buffer) (hsize : size ≤ n) : memsetBelow n z size = some (memset z size) := by
  unfold memsetBelow
  rw [forUpM_eq_some 0 size z fun j t _ hj => writeBelow_eq (by omega : j < n) t 0,
    forUp_update 0 size (fun _ _ => 0) z]
  congr 1
  funext k
  simp only [memset, Nat.zero_le, true_and, Nat.zero_add]

theorem mulVecBelow_eq (z x : Buffer) (y : SymbolType) (hsize : size ≤ n) :
    mulVecBelow n z x y size = some (mulVec z x y size) := by
  unfold mulVecBelow mulVec
  split_ifs
  · exact memsetBelow_eq z hsize
  · refine unrolledM_eq (n := n) (fun k hk z => ?_) size 0 z (by omega)
    rw [readBelow_eq hk, Option.bind_eq_bind, Option.bind_some, writeBelow_eq hk]

theorem mulVecLocalBelow_eq (x : Buffer) (y : SymbolType) (hsize : size ≤ n) :
    mulVecLocalBelow n x y size = some (mulVecLocal x y size) := by
  unfold mulVecLocalBelow mulVecLocal
  split_ifs
  · exact memsetBelow_eq x hsize
  · refine unrolledM_eq (n := n) (fun k hk x => ?_) size 0 x (by omega)
    rw [readBelow_eq hk, Option.bind_eq_bind, Option.bind_some, writeBelow_eq hk]

theorem addMulVecBelow_eq (z x : Buffer) (y : SymbolType) (hsize : size ≤ n) :
    addMulVecBelow n z x y size = some (addMulVec z x y size) := by
  unfold addMulVecBelow addMulVec
  split_ifs
  · rfl
  · refine unrolledM_eq (n := n) (fun k hk z => ?_) size 0 z (by omega)
    rw [readBelow_eq hk, readBelow_eq hk, Option.bind_eq_bind, Option.bind_some, Option.bind_some,
      writeBelow_eq hk]

/-- The product stays inside its buffers, whatever their sizes. -/
theorem mulMatBelow_eq (z : Buffer) (x : Nat → Buffer) (y : Buffer) {col : Nat} (row : Nat) (hcol : 0 < col) :
    mulMatBelow z x y col row = some (mulMat z x y col row) := by
  unfold mulMatBelow mulMat
  simp only [readBelow_eq hcol, mulVecBelow_eq _ _ _ (Nat.le_refl row), Option.bind_eq_bind, Option.bind_some]
  apply forUpM_eq_some 1 (col - 1) _
  intro i z _ hi
  have hlt : i < col := by omega
  simp only [readBelow_eq hlt, addMulVecBelow_eq _ _ _ (Nat.le_refl row), Option.bind_some]

end Confined

/-- The kernels compute their products element by element, and neither read nor change an element
from `size` on; `mulMat` multiplies a matrix by a vector whatever `z` held before. -/
theorem kernels_elementwise (size : Nat) (y : SymbolType) (z x : Buffer) :
    mulVecBelow size z x y size = some (fun k => if k < size then y * x k else z k) ∧
      mulVecLocalBelow size x y size = some (fun k => if k < size then y * x k else x k) ∧
      addMulVecBelow size z x y size = some (fun k => if k < size then z k + y * x k else z k) ∧
      ∀ (X : Nat → Buffer) (Y : Buffer) (col row : Nat), 1 ≤ col →
        mulMatBelow z X Y col row = some (fun k =>
          if hk : k < row then (toMatrix col row X).mulVec (fun i => Y i) ⟨k, hk⟩ else z k) := by
  refine ⟨?_, ?_, ?_, fun X Y col row hcol => ?_⟩
  · rw [mulVecBelow_eq z x y le_rfl, mulVec_eq]
  · rw [mulVecLocalBelow_eq x y le_rfl, mulVecLocal_eq]
  · rw [addMulVecBelow_eq z x y le_rfl, addMulVec_eq]
  · rw [mulMatBelow_eq z X Y row hcol, mulMat_eq z X Y col row hcol]
    apply congrArg some
    funext k
    split_ifs with hk
    · rw [Matrix.mulVec, dotProduct, ← Fin.sum_univ_eq_sum_range fun i => Y i * X i k]
      exact Finset.sum_congr rfl fun i _ => mul_comm _ _
    · rfl

end Soar.Communication
