import Soar.Communication.DecodeExactness
import Soar.Communication.RepeatedPivot

/-! `LDPC::decode` for lists in which a packet may occur several times. Entries of A with one
`coefId` are one row of G, which the elimination then changes through both. -/
namespace Soar.Communication
open Soar.Library Soar.Library.ColumnReduction Finset

section
variable (mt19937 : Nat → Nat → UInt32) (batchId nin nout pktSize : Nat)

/-- Decoding the packets `ids 0, ..., ids (numInput - 1)` succeeds only with the source packets. -/
def ListSound (ids : Nat → Nat) (numInput : Nat) : Prop :=
  ∀ (S : Nat → Buffer) (coder : LDPC) (inputPkts outputPkts : RowTable kMaxCodingSize Buffer),
    (∀ k < numInput, IsPacket mt19937 batchId nin nout pktSize S (ids k) (inputPkts.row k)) →
    ∃ out, coder.decode mt19937 inputPkts outputPkts numInput pktSize = some out ∧
      (out.ok = true → ∀ i < nin, ∀ t < pktSize, out.outputPkts.row i t = S i t)

/-- The sources with parity packet `j` in the places `i₀` and `i₀ + 1`. -/
def twiceIds (i₀ j k : Nat) : Nat := if k < i₀ then k else if k ≤ i₀ + 1 then nin + j else k - 1

/-- Source packets of which only packet `i₁` is not zero. -/
def unitSource (i₁ i : Nat) : Buffer := fun _ => if i = i₁ then 1 else 0

def twiceParity (i₀ i₁ j : Nat) : RowTable kMaxCodingSize Buffer :=
  ⟨fun k => packet batchId nin nout 0 (twiceIds nin i₀ j k)
    (codeword mt19937 batchId nin nout (unitSource i₁) (twiceIds nin i₀ j k))⟩

end

variable {mt19937 : Nat → Nat → UInt32} {batchId nin nout pktSize : Nat}

theorem column_sparse {g : Nat} (h : ∀ j < nout, ∀ i < nin, ∀ i' < nin, coef mt19937 batchId nout i j ≠ 0 →
      coef mt19937 batchId nout i' j ≠ 0 → i = i') (hg : g < nin + nout) :
    ∀ i < nin, ∀ i' < nin, column mt19937 batchId nin nout g i ≠ 0 →
      column mt19937 batchId nin nout g i' ≠ 0 → i = i' := by
  intro i hi i' hi'
  unfold column
  split_ifs with hgn hig hig' <;> intro h1 h2
  · omega
  · exact absurd rfl h2
  · exact absurd rfl h1
  · exact absurd rfl h1
  · exact h (g - nin) (by omega) i hi i' hi' h1 h2

/-- Lists of packets with at most one coefficient each are decoded correctly. -/
theorem listSound_of_sparse (h : ∀ j < nout, ∀ i < nin, ∀ i' < nin, coef mt19937 batchId nout i j ≠ 0 →
      coef mt19937 batchId nout i' j ≠ 0 → i = i') (ids : Nat → Nat) (numInput : Nat) (h1 : 1 ≤ numInput)
    (hn : numInput ≤ kMaxCodingSize) : ListSound mt19937 batchId nin nout pktSize ids numInput := by
  intro S coder inputPkts outputPkts hp
  obtain ⟨A, Y, out, hptr, hcol, hY, hdec, _, hok, _, hwrite⟩ :=
    decode_packets coder inputPkts outputPkts numInput ids h1 hn hp
  have hA : ∀ k < numInput, ∀ i < nin, A.get k i = column mt19937 batchId nin nout (ids k) i := by
    intro k hk i hi
    rw [Mat.get, hptr k hk, hcol _ (hp k hk).lt i hi]
  refine ⟨out, hdec, fun ht i hi t htp => ?_⟩
  rw [hok, decide_eq_true_iff] at ht
  have hle := gaussianElimination_le A (newIdentityMat numInput) numInput nin
  have hr : (gaussianElimination A (newIdentityMat numInput) numInput nin).1 = nin := le_antisymm hle ht
  have hunit := gaussianElimination_unit A numInput nin
    (fun k hk r hr r' hr' => by
      rw [hA k hk r hr, hA k hk r' hr']
      exact column_sparse h (hp k hk).lt r hr r' hr') hr
  rw [hwrite hr i hi t htp]
  apply combination_recovers _ (fun r => S r t) (fun k => Y k t) hi (hunit i hi)
  intro l hl
  rw [hY l hl t htp]
  exact Finset.sum_congr rfl fun r hr => by rw [hA l hl r (mem_range.mp hr)]

/-- Parity packet `j`, received twice where its first source is due, is taken for that source. -/
theorem decode_twiceParity (mt19937 : Nat → Nat → UInt32) (pktSize i₁ : Nat) {i₀ j : Nat} (hb : batchId < 2 ^ 16)
    (hnin : nin ≤ 31) (hnout : nout ≤ 31)
    (h₀ : i₀ < nin) (h₁ : i₁ < nin) (hj : j < nout) (hne : coef mt19937 batchId nout i₀ j ≠ 0)
    (hfirst : ∀ r < i₀, coef mt19937 batchId nout r j = 0) :
    (∀ k < nin + 1, IsPacket mt19937 batchId nin nout pktSize (unitSource i₁) (twiceIds nin i₀ j k)
      ((twiceParity mt19937 batchId nin nout i₀ i₁ j).row k)) ∧
    ∃ out, LDPC.new.decode mt19937 (twiceParity mt19937 batchId nin nout i₀ i₁ j) (newMat kMaxCodingSize)
        (nin + 1) pktSize = some out ∧ out.ok = true ∧
      ∀ t < pktSize, out.outputPkts.row i₀ t = coef mt19937 batchId nout i₁ j / coef mt19937 batchId nout i₀ j := by
  have hids (k : Nat) (hk : k < nin + 1) : twiceIds nin i₀ j k < nin + nout := by
    unfold twiceIds
    split_ifs <;> omega
  have hpkts : ∀ k < nin + 1, IsPacket mt19937 batchId nin nout pktSize (unitSource i₁) (twiceIds nin i₀ j k)
      ((twiceParity mt19937 batchId nin nout i₀ i₁ j).row k) :=
    fun k hk => isPacket_packet 0 _ hb (by omega) (by omega) (hids k hk)
  refine ⟨hpkts, ?_⟩
  have hmax : nin + 1 ≤ kMaxCodingSize := by
    simp only [kMaxCodingSize]
    omega
  obtain ⟨A, Y, out, hptr, hcol, hY, hdec, _, hok, _, hwrite⟩ :=
    decode_packets LDPC.new (twiceParity mt19937 batchId nin nout i₀ i₁ j) (newMat kMaxCodingSize) (nin + 1)
      (twiceIds nin i₀ j) (by omega) hmax hpkts
  have hrep (k : Nat) (h : i₀ ≤ k) (h' : k ≤ i₀ + 1) : twiceIds nin i₀ j k = nin + j := by
    rw [twiceIds, if_neg (by omega), if_pos h']
  obtain ⟨hr, hcomb⟩ := gaussianElimination_repeated A h₀ hne hfirst
    (by rw [hptr i₀ (by omega), hptr (i₀ + 1) (by omega), hrep i₀ le_rfl (Nat.le_succ _),
      hrep (i₀ + 1) (by omega) le_rfl])
    (fun k hk r hr => by
      rw [Mat.get, hptr k hk, hcol _ (hids k hk) r hr, twiceIds, repeatedColumn, column]
      split_ifs <;> first | rfl | omega | rw [Nat.add_sub_cancel_left])
  refine ⟨out, hdec, by rw [hok, hr, decide_eq_true_iff], fun t ht => ?_⟩
  rw [hwrite hr i₀ h₀ t ht, Finset.sum_eq_single i₀]
  · rw [hcomb i₀ (by omega), if_pos rfl, hY i₀ (by omega) t ht, hrep i₀ le_rfl (Nat.le_succ _),
      Finset.sum_eq_single i₁]
    · rw [unitSource, if_pos rfl, column, if_neg (by omega), Nat.add_sub_cancel_left, one_mul, one_div_mul_eq_div]
    · intro r _ hr
      rw [unitSource, if_neg hr, zero_mul]
    · intro hn
      exact absurd (mem_range.mpr h₁) hn
  · intro l hl hne
    rw [hcomb l (mem_range.mp hl), if_neg hne, zero_mul]
  · intro hn
    exact absurd (mem_range.mpr (by omega)) hn

/-- Exactly the batches in which every parity packet has at most one nonzero coefficient are
decoded correctly from every list with repetitions; lists without repetition always are. -/
theorem repeated_sound_iff (hb : batchId < 2 ^ 16) (hnin : nin ≤ 31) (hnout : nout ≤ 31) :
    ((∀ ids numInput, 1 ≤ numInput → numInput ≤ kMaxCodingSize →
        ListSound mt19937 batchId nin nout pktSize ids numInput) ↔
      pktSize = 0 ∨ ∀ j < nout, ∀ i < nin, ∀ i' < nin, coef mt19937 batchId nout i j ≠ 0 →
        coef mt19937 batchId nout i' j ≠ 0 → i = i') ∧
    ∀ ids numInput, 1 ≤ numInput → numInput ≤ kMaxCodingSize →
      (∀ j < numInput, ∀ k < numInput, ids j = ids k → j = k) →
      ListSound mt19937 batchId nin nout pktSize ids numInput := by
  refine ⟨⟨fun h => or_iff_not_imp_left.mpr fun hsize j hj => ?_, ?_⟩, ?_⟩
  · by_contra hc
    have hex : ∃ i, i < nin ∧ coef mt19937 batchId nout i j ≠ 0 := by
      by_contra hn
      exact hc fun i hi i' _ hne _ => absurd ⟨i, hi, hne⟩ hn
    obtain ⟨h₀, hne⟩ := Nat.find_spec hex
    have hfirst (r : Nat) (hr : r < Nat.find hex) : coef mt19937 batchId nout r j = 0 := by
      by_contra hn
      exact Nat.find_min hex hr ⟨by omega, hn⟩
    apply hc
    have hall (i₁ : Nat) (h₁ : i₁ < nin) (hne₁ : coef mt19937 batchId nout i₁ j ≠ 0) : Nat.find hex = i₁ := by
      by_contra hdiff
      obtain ⟨hpkts, out, hdec, hok, hout⟩ := decode_twiceParity mt19937 pktSize i₁ hb hnin hnout h₀ h₁ hj hne hfirst
      obtain ⟨out', hdec', hsound⟩ := h (twiceIds nin (Nat.find hex) j) (nin + 1) (by omega)
        (by simp only [kMaxCodingSize]; omega) (unitSource i₁) LDPC.new _ (newMat kMaxCodingSize) hpkts
      obtain rfl : out = out' := Option.some.inj (hdec.symm.trans hdec')
      have hz := (hout 0 (by omega)).symm.trans (hsound hok _ h₀ 0 (by omega))
      rw [unitSource, if_neg hdiff] at hz
      exact div_ne_zero hne₁ hne hz
    intro i hi i' hi' hne' hne''
    rw [← hall i hi hne', hall i' hi' hne'']
  · rintro (rfl | h) ids numInput h1 hn
    · intro S coder inputPkts outputPkts hp
      obtain ⟨A, Y, out, _, _, _, hdec, _⟩ := decode_packets coder inputPkts outputPkts numInput ids h1 hn hp
      exact ⟨out, hdec, fun _ _ _ t ht => absurd ht (by omega)⟩
    · exact listSound_of_sparse h ids numInput h1 hn
  · intro ids numInput h1 hn hd S coder inputPkts outputPkts hp
    obtain ⟨out, hdec, _, hsound, _⟩ := decode_distinct coder inputPkts outputPkts numInput ids h1 hn hp hd
    exact ⟨out, hdec, hsound⟩

/-- The parity packet, received twice, has the coefficients 255 and 0. -/
theorem repeated_sound_iff_sparse : ListSound countingStream 255 2 1 4 (twiceIds 2 0 0) 3 := by
  have hsparse : ∀ j < 1, ∀ i < 2, ∀ i' < 2, coef countingStream 255 1 i j ≠ 0 →
      coef countingStream 255 1 i' j ≠ 0 → i = i' := by
    decide +kernel
  obtain ⟨hiff, -⟩ := @repeated_sound_iff countingStream 255 2 1 4 (by decide) (by decide) (by decide)
  exact hiff.mpr (.inr hsparse) (twiceIds 2 0 0) 3 (by decide) (by decide)

/-- Parity packet with coefficients 1 and 2, received twice, then source packet 1. -/
theorem not_listSound_twiceParity : ¬ ListSound countingStream 1 2 1 1 (twiceIds 2 0 0) 3 := by
  intro h
  obtain ⟨hpkts, out, hdec, hok, hout⟩ := decode_twiceParity countingStream 1 1 (show 1 < 2 ^ 16 by decide)
    (show 2 ≤ 31 by decide) (show 1 ≤ 31 by decide) (show 0 < 2 by decide) (show 1 < 2 by decide)
    (show 0 < 1 by decide) (by decide) (fun r hr => absurd hr (by omega))
  obtain ⟨out', hdec', hsound⟩ := h (unitSource 1) LDPC.new _ (newMat kMaxCodingSize) hpkts
  obtain rfl : out = out' := Option.some.inj (hdec.symm.trans hdec')
  have hz := (hout 0 (by decide)).symm.trans (hsound hok 0 (by decide) 0 (by decide))
  exact absurd hz (by decide)

end Soar.Communication
