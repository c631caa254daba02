import Soar.Communication.Decoding
import Soar.Communication.Elimination
import Mathlib.Data.List.GetD

/-! Whether a decode succeeds, read off the headers of the collected packets. -/
namespace Soar.Communication
open Soar.Library

/-! An elimination reads nothing of its matrix but the entries of the columns that it is given. -/

/-- Matrices with the same columns of `row` entries, in the same buffers. -/
structure Mat.Agrees (col row : Nat) (mat mat' : Mat) : Prop where
  ptr : ∀ k < col, mat.ptr k = mat'.ptr k
  get : ∀ k < col, ∀ r < row, mat.get k r = mat'.get k r

variable {col row : Nat} {mat mat' : Mat}

private theorem Mat.Agrees.swap (h : mat.Agrees col row mat') {p i : Nat} (hp : p < col) (hi : i < col) :
    (mat.swap p i).Agrees col row (mat'.swap p i) := by
  have hlt {k : Nat} (hk : k < col) : Equiv.swap p i k < col := by
    rw [Equiv.swap_apply_def]
    split_ifs <;> assumption
  exact ⟨fun k hk => h.ptr _ (hlt hk), fun k hk r hr => h.get _ (hlt hk) r hr⟩

private theorem Mat.Agrees.setCol (h : mat.Agrees col row mat') {k : Nat} (hk : k < col) {v v' : Buffer}
    (hv : ∀ r < row, v r = v' r) : (mat.setCol k v).Agrees col row (mat'.setCol k v') := by
  refine ⟨h.ptr, fun k' hk' r hr => ?_⟩
  rw [Mat.get_setCol, Mat.get_setCol, h.ptr k' hk', h.ptr k hk]
  split_ifs
  · exact hv r hr
  · exact h.get k' hk' r hr

private theorem Mat.Agrees.findNonZeroCol (h : mat.Agrees col row mat') {i : Nat} (hi : i < row) :
    findNonZeroCol mat i col = findNonZeroCol mat' i col := by
  apply List.find?_congr
  intro k hk
  have := List.mem_range'_1.mp hk
  rw [h.get k (by omega) i hi]

private theorem Mat.Agrees.clearEntry {i k : Nat} (hi : i < row) (hic : i < col) (hk : k < col) {s s' : Mat × Mat}
    (h : s.1.Agrees col row s'.1) : (clearEntry col row i k s).1.Agrees col row (clearEntry col row i k s').1 := by
  unfold Communication.clearEntry
  dsimp only
  rw [h.get k hk i hi]
  split_ifs
  · exact h
  · rw [reduceCol_eq, reduceCol_eq]
    refine h.setCol hk fun r hr => ?_
    rw [h.get k hk r hr, h.get i hic r hr]

private theorem Mat.Agrees.pivotStep {i p : Nat} (hi : i < row) (hip : i ≤ p) (hp : p < col) {s s' : Mat × Mat}
    (h : s.1.Agrees col row s'.1) : (pivotStep col row i p s).1.Agrees col row (pivotStep col row i p s').1 := by
  have hic : i < col := by omega
  have hswap := h.swap hp hic
  unfold Communication.pivotStep
  dsimp only
  refine forUp_related 0 col _ (fun t t' : Mat × Mat => t.1.Agrees col row t'.1) ?_ fun k t t' _ hk ht =>
    ht.clearEntry hi hic (by omega)
  rw [scaleCol_eq, scaleCol_eq, hswap.get i hic i hi]
  refine hswap.setCol hic fun r hr => ?_
  rw [hswap.get i hic r hr]

private theorem eliminateFrom_congr (left i : Nat) {s s' : Mat × Mat} (hi : i + left = row)
    (h : s.1.Agrees col row s'.1) : (eliminateFrom col row left i s).1 = (eliminateFrom col row left i s').1 := by
  induction left generalizing i s s' with
  | zero => rfl
  | succ left ih =>
    rw [eliminateFrom, eliminateFrom, h.findNonZeroCol (by omega)]
    cases hp : findNonZeroCol s'.1 i col with
    | none => rfl
    | some p =>
      obtain ⟨hip, hpc, _⟩ := findNonZeroCol_some hp
      exact ih (i + 1) (by omega) (h.pivotStep (by omega) hip hpc)

/-- How far the elimination gets depends on the given entries only. -/
theorem gaussianElimination_congr (h : mat.Agrees col row mat') (invMat : Mat) :
    (gaussianElimination mat invMat col row).1 = (gaussianElimination mat' invMat col row).1 :=
  eliminateFrom_congr row 0 (Nat.zero_add row) h

section
variable (mt19937 : Nat → Nat → UInt32)

/-- All packets are of the batch that the first header describes. -/
def Indexed (first : CodingHdr) (hdrs : List CodingHdr) : Prop :=
  ∀ hdr ∈ hdrs, (hdr.coefId : Nat) < first.nin + first.nout

instance (first : CodingHdr) (hdrs : List CodingHdr) : Decidable (Indexed first hdrs) :=
  inferInstanceAs (Decidable (∀ hdr ∈ hdrs, (hdr.coefId : Nat) < first.nin + first.nout))

/-- The coefficient columns that the headers name, in the matrix of the first header. -/
def headerColumns (first : CodingHdr) (hdrs : List CodingHdr) : Mat where
  ptr k := (hdrs.map fun hdr => (hdr.coefId : Nat)).getD k 0
  buf g i := column mt19937 first.batchId first.nin first.nout g i

/-- The elimination of the columns that the headers name finds a pivot in each of the `nin` rows. -/
def Solves (first : CodingHdr) (hdrs : List CodingHdr) : Prop :=
  Indexed first hdrs ∧ (first.nin : Nat) ≤
    (gaussianElimination (headerColumns mt19937 first hdrs) (newIdentityMat hdrs.length) hdrs.length first.nin).1

end

variable {mt19937 : Nat → Nat → UInt32}

/-- A decode of packets of one batch succeeds exactly when their headers solve it. -/
theorem decode_ok_iff {coder : LDPC} {inputPkts outputPkts : RowTable kMaxCodingSize Buffer} {pktSize : Nat}
    {out : Decoded} {first : CodingHdr} {hdrs : List CodingHdr} (hfirst : first ∈ hdrs.head?)
    (hlen : hdrs.length ≤ kMaxCodingSize)
    (hrows : ∀ k, (hk : k < hdrs.length) → CodingHdr.read (inputPkts.row k) = hdrs[k]) (hin : Indexed first hdrs)
    (h : coder.decode mt19937 inputPkts outputPkts hdrs.length pktSize = some out) :
    out.ok = true ↔ Solves mt19937 first hdrs := by
  obtain ⟨A, _, out', hptr, hcol, _, hdec, _, hok, _⟩ :=
    decode_spec mt19937 coder inputPkts outputPkts hdrs.length pktSize hlen
  rw [h, Option.some_inj] at hdec
  obtain rfl := hdec
  have hrow : CodingHdr.read (inputPkts.row 0) = first := by
    obtain ⟨rest, rfl⟩ := List.head?_eq_some_iff.mp hfirst
    exact hrows 0 (by simp)
  rw [hrow] at hcol hok
  have hp : ∀ k < hdrs.length, A.ptr k = (headerColumns mt19937 first hdrs).ptr k := by
    intro k hk
    have hmap : k < (hdrs.map fun hdr => (hdr.coefId : Nat)).length := by simpa using hk
    rw [hptr k hk, hrows k hk]
    change _ = (hdrs.map fun hdr => (hdr.coefId : Nat)).getD k 0
    rw [List.getD_eq_getElem _ _ hmap, List.getElem_map]
  have hagrees : A.Agrees hdrs.length first.nin (headerColumns mt19937 first hdrs) := by
    refine ⟨hp, fun k hk r hr => ?_⟩
    rw [Mat.get, Mat.get, ← hp k hk, hptr k hk, hrows k hk, hcol _ (hin _ (List.getElem_mem hk)) r hr]
    rfl
  rw [hok, decide_eq_true_iff, gaussianElimination_congr hagrees]
  exact (and_iff_right hin).symm

end Soar.Communication
