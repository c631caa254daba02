import Mathlib.Algebra.CharP.Two
import Mathlib.Algebra.Field.Defs
import Mathlib.Algebra.Field.Basic
import Mathlib.Data.BitVec

/-! The symbols of the coded packets and the arithmetic of their tables.
`mulTable_O8` and `divTable_O8` are the product and the quotient of GF(2^8) with
the modulus x^8 + x^4 + x^3 + x^2 + 1; the field laws are derived from the bits. -/
namespace Soar.Communication

/-- `config.h`: one symbol is an unsigned byte, `FIELD_ORDER` is 8. -/
def SymbolType := BitVec 8

def FIELD_ORDER : Nat := 8
def FIELD_SIZE : Nat := 1 <<< FIELD_ORDER

namespace SymbolType

instance : DecidableEq SymbolType := inferInstanceAs (DecidableEq (BitVec 8))
instance : Repr SymbolType := inferInstanceAs (Repr (BitVec 8))

def toNat (x : SymbolType) : Nat := BitVec.toNat x
def ofNat (n : Nat) : SymbolType := BitVec.ofNat 8 n
def bit (x : SymbolType) (i : Nat) : Bool := BitVec.getLsbD x i

theorem toNat_lt (x : SymbolType) : x.toNat < 256 := BitVec.isLt x

@[simp] theorem toNat_ofNat (n : Nat) : (ofNat n).toNat = n % 256 := BitVec.toNat_ofNat n 8

@[simp] theorem ofNat_toNat (x : SymbolType) : ofNat x.toNat = x := by
  apply BitVec.eq_of_toNat_eq
  exact (toNat_ofNat x.toNat).trans (Nat.mod_eq_of_lt x.toNat_lt)

instance : Zero SymbolType := ⟨ofNat 0⟩
instance : One SymbolType := ⟨ofNat 1⟩
instance : Add SymbolType := ⟨fun x y => BitVec.xor x y⟩
instance : Neg SymbolType := ⟨fun x => x⟩

instance : AddCommGroup SymbolType where
  add_assoc := BitVec.xor_assoc
  zero_add := fun _ => BitVec.zero_xor
  add_zero := fun _ => BitVec.xor_zero
  add_comm := BitVec.xor_comm
  neg_add_cancel := fun _ => BitVec.xor_self
  nsmul := nsmulRec
  zsmul := zsmulRec

theorem add_self (x : SymbolType) : x + x = 0 := neg_add_cancel x

private theorem add_add_self (x y : SymbolType) : x + (x + y) = y := by
  rw [← add_assoc, add_self, zero_add]

theorem bit_add (x y : SymbolType) (i : Nat) : (x + y).bit i = (x.bit i ^^ y.bit i) :=
  BitVec.getLsbD_xor

def shl (x : SymbolType) : SymbolType := BitVec.shiftLeft x 1

private theorem shl_add (x y : SymbolType) : shl (x + y) = shl x + shl y :=
  BitVec.shiftLeft_xor_distrib x y 1

/-- Multiplication by x, reduced by the low byte 0x1d of the modulus. -/
def xtime (x : SymbolType) : SymbolType := shl x + if x.bit 7 then ofNat 0x1d else 0

/-- The part of the product that the lowest `k` bits of `y` contribute. -/
def partialProduct (x y : SymbolType) : Nat → SymbolType
  | 0 => 0
  | k + 1 => partialProduct x y k + if y.bit k then xtime^[k] x else 0

/-- The product of GF(2^8): the carry-less product of two bytes, reduced. -/
def product (x y : SymbolType) : SymbolType := partialProduct x y FIELD_ORDER

private theorem xtime_add (x y : SymbolType) : xtime (x + y) = xtime x + xtime y := by
  simp only [xtime, bit_add, shl_add]
  cases x.bit 7 <;> cases y.bit 7 <;> simp [add_assoc, add_left_comm, add_comm, add_add_self]

private theorem xtime_zero : xtime 0 = 0 := by decide

private theorem iterate_xtime_add (k : Nat) (x y : SymbolType) :
    xtime^[k] (x + y) = xtime^[k] x + xtime^[k] y := by
  induction k generalizing x y with
  | zero => rfl
  | succ k ih => simp only [Function.iterate_succ_apply, xtime_add, ih]

private theorem partialProduct_add_left (x y z : SymbolType) (k : Nat) :
    partialProduct (x + y) z k = partialProduct x z k + partialProduct y z k := by
  induction k with
  | zero => simp [partialProduct]
  | succ k ih =>
    simp only [partialProduct, ih, iterate_xtime_add]
    split <;> simp [add_assoc, add_left_comm]

private theorem partialProduct_add_right (x y z : SymbolType) (k : Nat) :
    partialProduct x (y + z) k = partialProduct x y k + partialProduct x z k := by
  induction k with
  | zero => simp [partialProduct]
  | succ k ih =>
    simp only [partialProduct, ih, bit_add]
    cases y.bit k <;> cases z.bit k <;> simp [add_assoc, add_left_comm, add_comm, add_add_self]

private theorem partialProduct_xtime (x y : SymbolType) (k : Nat) :
    partialProduct (xtime x) y k = xtime (partialProduct x y k) := by
  induction k with
  | zero => simp [partialProduct, xtime_zero]
  | succ k ih =>
    simp only [partialProduct, ih, xtime_add]
    cases y.bit k
    · simp [xtime_zero]
    · simp only [if_true]
      rw [← Function.iterate_succ_apply, Function.iterate_succ_apply']

private theorem product_add_left (x y z : SymbolType) :
    product (x + y) z = product x z + product y z := partialProduct_add_left x y z _

private theorem product_add_right (x y z : SymbolType) :
    product x (y + z) = product x y + product x z := partialProduct_add_right x y z _

private theorem product_iterate_xtime (x y : SymbolType) (k : Nat) :
    product (xtime^[k] x) y = xtime^[k] (product x y) := by
  induction k with
  | zero => rfl
  | succ k ih =>
    rw [Function.iterate_succ_apply', Function.iterate_succ_apply', ← ih]
    exact partialProduct_xtime _ _ _

private theorem zero_product (y : SymbolType) : product 0 y = 0 := by
  have h := product_add_left 0 0 y
  rwa [add_zero, left_eq_add] at h

private theorem one_product (y : SymbolType) : product 1 y = y := by
  have h : ∀ n : Fin 256, product 1 (ofNat n) = ofNat n := by decide +kernel
  simpa using h ⟨y.toNat, y.toNat_lt⟩

private theorem partialProduct_product (x y z : SymbolType) (k : Nat) :
    product (partialProduct x y k) z = partialProduct (product x z) y k := by
  induction k with
  | zero => exact zero_product z
  | succ k ih =>
    simp only [partialProduct, product_add_left, ih]
    cases y.bit k
    · simp [zero_product]
    · simp only [if_true, product_iterate_xtime]

private theorem product_comm (x y : SymbolType) : product x y = product y x := by
  have h := partialProduct_product 1 x y FIELD_ORDER
  rw [one_product] at h
  calc product x y = product (product 1 x) y := by rw [one_product]
    _ = product y x := h

private theorem product_one (x : SymbolType) : product x 1 = x := by
  rw [product_comm, one_product]

private theorem product_assoc (x y z : SymbolType) :
    product (product x y) z = product x (product y z) := by
  calc product (product x y) z = product (product x z) y := partialProduct_product x y z _
    _ = product (product z x) y := by rw [product_comm x z]
    _ = product (product z y) x := partialProduct_product z x y _
    _ = product x (product y z) := by rw [product_comm z y, product_comm _ x]

/-- The row of `divTable_O8` that divides 1, with 0 in the entry of the divisor 0. -/
def inverseTable : List Nat := [
  0, 1, 142, 244, 71, 167, 122, 186, 173, 157, 221, 152, 61, 170, 93, 150, 216, 114, 192, 88, 224, 62, 76, 102, 144, 222,
  85, 128, 160, 131, 75, 42, 108, 237, 57, 81, 96, 86, 44, 138, 112, 208, 31, 74, 38, 139, 51, 110, 72, 137, 111, 46,
  164, 195, 64, 94, 80, 34, 207, 169, 171, 12, 21, 225, 54, 95, 248, 213, 146, 78, 166, 4, 48, 136, 43, 30, 22, 103,
  69, 147, 56, 35, 104, 140, 129, 26, 37, 97, 19, 193, 203, 99, 151, 14, 55, 65, 36, 87, 202, 91, 185, 196, 23, 77,
  82, 141, 239, 179, 32, 236, 47, 50, 40, 209, 17, 217, 233, 251, 218, 121, 219, 119, 6, 187, 132, 205, 254, 252, 27, 84,
  161, 29, 124, 204, 228, 176, 73, 49, 39, 45, 83, 105, 2, 245, 24, 223, 68, 79, 155, 188, 15, 92, 11, 220, 189, 148,
  172, 9, 199, 162, 28, 130, 159, 198, 52, 194, 70, 5, 206, 59, 13, 60, 156, 8, 190, 183, 135, 229, 238, 107, 235, 242,
  191, 175, 197, 100, 7, 123, 149, 154, 174, 182, 18, 89, 165, 53, 101, 184, 163, 158, 210, 247, 98, 90, 133, 125, 168, 58,
  41, 113, 200, 246, 249, 67, 215, 214, 16, 115, 118, 120, 153, 10, 25, 145, 20, 63, 230, 240, 134, 177, 226, 241, 250, 116,
  243, 180, 109, 33, 178, 106, 227, 231, 181, 234, 3, 143, 211, 201, 66, 212, 232, 117, 127, 255, 126, 253]

def inverse (x : SymbolType) : SymbolType := ofNat (inverseTable.getD x.toNat 0)

private theorem product_inverse (x : SymbolType) (h : x ≠ 0) : product x (inverse x) = 1 := by
  have hd : ∀ n : Fin 256, ofNat n ≠ 0 → product (ofNat n) (inverse (ofNat n)) = 1 := by
    decide +kernel
  have hx := hd ⟨x.toNat, x.toNat_lt⟩
  simp only [ofNat_toNat] at hx
  exact hx h

instance : Mul SymbolType := ⟨product⟩
instance : Inv SymbolType := ⟨inverse⟩

instance : Field SymbolType where
  mul_assoc := product_assoc
  one_mul := one_product
  mul_one := product_one
  left_distrib := product_add_right
  right_distrib := product_add_left
  zero_mul := zero_product
  mul_zero := fun x => (product_comm x 0).trans (zero_product x)
  mul_comm := product_comm
  exists_pair_ne := ⟨0, 1, by decide⟩
  mul_inv_cancel := product_inverse
  inv_zero := by decide +kernel
  nnqsmul := _
  nnqsmul_def := fun _ _ => rfl
  qsmul := _
  qsmul_def := fun _ _ => rfl

instance : CharP SymbolType 2 := CharTwo.of_one_ne_zero_of_two_eq_zero one_ne_zero
  (by rw [← one_add_one_eq_two]; exact add_self 1)

end SymbolType
end Soar.Communication
