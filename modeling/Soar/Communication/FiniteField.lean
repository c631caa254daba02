import Soar.Communication.SymbolField
import Soar.Library.Loops
import Mathlib.Logic.Equiv.Basic
import Mathlib.Algebra.BigOperators.Group.Finset.Basic

/-! `FiniteField.cpp`: table arithmetic, vector kernels, elimination by columns.
A matrix is a table of pointers to column buffers, so two entries of the table may
designate one buffer. -/
namespace Soar.Communication
open Soar.Library

/-- The bytes behind one `SymbolType*`. -/
abbrev Buffer := Nat → SymbolType

def mulTable_O8 (index : Nat) : SymbolType :=
  SymbolType.product (.ofNat (index >>> FIELD_ORDER)) (.ofNat (index % FIELD_SIZE))

/-- A quotient by 0 is entered as 255. -/
def divTable_O8 (index : Nat) : SymbolType :=
  if index % FIELD_SIZE = 0 then .ofNat 255
  else SymbolType.product (.ofNat (index >>> FIELD_ORDER)) (SymbolType.inverse (.ofNat (index % FIELD_SIZE)))

def addElem (x y : SymbolType) : SymbolType := x + y
def subElem (x y : SymbolType) : SymbolType := x + y
def mulElem (x y : SymbolType) : SymbolType := mulTable_O8 (x.toNat <<< FIELD_ORDER ||| y.toNat)
def divElem (x y : SymbolType) : SymbolType := divTable_O8 (x.toNat <<< FIELD_ORDER ||| y.toNat)

/-- Sixteen statements of a kernel, in the order in which they are written out. -/
def unrolledBlock (entry : Nat → Buffer → Buffer) (base : Nat) (z : Buffer) : Buffer :=
  [0, 1, 2, 3, 4, 5, 6, 7, 8, 9, 10, 11, 12, 13, 14, 15].foldl (fun z k => entry (base + k) z) z

/-- `while (size >= 16)` with the pointers moved by 16, then the loop over the rest. -/
def unrolled (entry : Nat → Buffer → Buffer) : (size base : Nat) → Buffer → Buffer
  | size + 16, base, z => unrolled entry size (base + 16) (unrolledBlock entry base z)
  | size, base, z => forUp base size entry z

def memset (z : Buffer) (size : Nat) : Buffer := fun k => if k < size then 0 else z k

/-- `mulVec(z, x, y, size)`: z[] = y * x[]. -/
def mulVec (z x : Buffer) (y : SymbolType) (size : Nat) : Buffer :=
  if y = 0 then memset z size
  else
    let y_index := y.toNat <<< FIELD_ORDER
    unrolled (fun k z => Function.update z k (mulTable_O8 (y_index ||| (x k).toNat))) size 0 z

/-- The overload `mulVec(x, y, size)`: x[] = y * x[]. -/
def mulVecLocal (x : Buffer) (y : SymbolType) (size : Nat) : Buffer :=
  if y = 0 then memset x size
  else
    let y_index := y.toNat <<< FIELD_ORDER
    unrolled (fun k x => Function.update x k (mulTable_O8 (y_index ||| (x k).toNat))) size 0 x

/-- `addMulVec(z, x, y, size)`: z[] = z[] + y * x[]. -/
def addMulVec (z x : Buffer) (y : SymbolType) (size : Nat) : Buffer :=
  if y = 0 then z
  else
    let y_index := y.toNat <<< FIELD_ORDER
    unrolled (fun k z => Function.update z k (addElem (z k) (mulTable_O8 (y_index ||| (x k).toNat)))) size 0 z

/-- z[] = x[][] * y[]. -/
def mulMat (z : Buffer) (x : Nat → Buffer) (y : Buffer) (col row : Nat) : Buffer :=
  forUp 1 (col - 1) (fun i z => addMulVec z (x i) (y i) row) (mulVec z (x 0) (y 0) row)

/-- `SymbolType**`: entry `k` of the table designates the buffer `ptr k`. -/
structure Mat where
  ptr : Nat → Nat
  buf : Nat → Buffer

namespace Mat

/-- `mat[k][j]`. -/
def get (mat : Mat) (k j : Nat) : SymbolType := mat.buf (mat.ptr k) j

/-- The column behind `mat[k]` gets new contents. -/
def setCol (mat : Mat) (k : Nat) (v : Buffer) : Mat :=
  { mat with buf := Function.update mat.buf (mat.ptr k) v }

/-- `mat[k][j] = v`. -/
def set (mat : Mat) (k j : Nat) (v : SymbolType) : Mat :=
  mat.setCol k (Function.update (mat.buf (mat.ptr k)) j v)

/-- `std::swap(mat[i], mat[j])`. -/
def swap (mat : Mat) (i j : Nat) : Mat := { mat with ptr := mat.ptr ∘ Equiv.swap i j }

end Mat

def newIdentityMat (_n : Nat) : Mat := ⟨id, fun k j => if k = j then 1 else 0⟩

/-- The first `j` with `i <= j < col` and `mat[j][i] != 0`. -/
def findNonZeroCol (mat : Mat) (i col : Nat) : Option Nat :=
  (List.range' i (col - i)).find? fun j => mat.get j i ≠ 0

/-- `mat[i][j] = mulElem(mat[i][j], c)` for `j` from `row - 1` down to `i`. -/
def scaleCol (mat : Mat) (i : Nat) (c : SymbolType) (row : Nat) : Mat :=
  forDown i (row - i) (fun j mat => mat.set i j (mulElem (mat.get i j) c)) mat

/-- `mat[k][j] = subElem(mat[k][j], mulElem(mat[i][j], c))` for `j` from `row - 1` down to `i`. -/
def reduceCol (mat : Mat) (i k : Nat) (c : SymbolType) (row : Nat) : Mat :=
  forDown i (row - i) (fun j mat => mat.set k j (subElem (mat.get k j) (mulElem (mat.get i j) c))) mat

/-- One pass of the loop over `k` that clears entry `i` of the other columns. -/
def clearEntry (col row i k : Nat) (s : Mat × Mat) : Mat × Mat :=
  let (mat, invMat) := s
  if k = i ∨ mat.get k i = 0 then s
  else
    let c := mat.get k i
    (reduceCol mat i k c row,
      invMat.setCol k (addMulVec (invMat.buf (invMat.ptr k)) (invMat.buf (invMat.ptr i)) c col))

/-- The loop body of `gaussianElimination` once the pivot column is found. -/
def pivotStep (col row i nonZeroCol : Nat) (s : Mat × Mat) : Mat × Mat :=
  let mat := s.1.swap nonZeroCol i
  let invMat := s.2.swap nonZeroCol i
  let c := divElem 1 (mat.get i i)
  let mat := scaleCol mat i c row
  let invMat := invMat.setCol i (mulVecLocal (invMat.buf (invMat.ptr i)) c col)
  forUp 0 col (clearEntry col row i) (mat, invMat)

/-- The iterations `i, ..., row - 1`, of which `left` remain. -/
def eliminateFrom (col row : Nat) : (left i : Nat) → Mat × Mat → Nat × (Mat × Mat)
  | 0, _, s => (row, s)
  | left + 1, i, s =>
    match findNonZeroCol s.1 i col with
    | none => (i, s)
    | some nonZeroCol => eliminateFrom col row left (i + 1) (pivotStep col row i nonZeroCol s)

/-- Returns the rank it reached with the reduced `mat` and `invMat`. -/
def gaussianElimination (mat invMat : Mat) (col row : Nat) : Nat × (Mat × Mat) :=
  eliminateFrom col row row 0 (mat, invMat)

/-- A table of `n` rows; an access outside it fails. -/
structure RowTable (n : Nat) (α : Type) where
  row : Nat → α

namespace RowTable
variable {n : Nat} {α : Type}

def get? (t : RowTable n α) (i : Nat) : Option α := if i < n then some (t.row i) else none

def set? (t : RowTable n α) (i : Nat) (v : α) : Option (RowTable n α) :=
  if i < n then some ⟨Function.update t.row i v⟩ else none

end RowTable

/-- Solves x * A = Y into the rows of `X`, which are written only when `A` reaches rank `rowA`. -/
def gaussianSolve {n : Nat} (A : Mat) (Y : Nat → Buffer) (X : RowTable n Buffer) (rowA col rowY : Nat) :
    Option (Nat × Mat × RowTable n Buffer) :=
  let r := gaussianElimination A (newIdentityMat col) col rowA
  let rank := r.1
  let invA := r.2.2
  if rank = rowA then do
    let X ← forUpM 0 rank (fun i X => do
      let z ← X.get? i
      X.set? i (mulMat z Y (invA.buf (invA.ptr i)) col rowY)) X
    some (rank, r.2.1, X)
  else some (rank, r.2.1, X)

end Soar.Communication
