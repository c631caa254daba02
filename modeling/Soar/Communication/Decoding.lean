import Soar.Communication.Codeword
import Soar.Communication.Kernels

/-! What the loops of the decoder leave in G, A and Y, and what `gaussianSolve` writes. -/
namespace Soar.Communication
open Soar.Library Finset

namespace RowTable
variable {n : Nat} {α : Type}

theorem get?_eq {t : RowTable n α} {i : Nat} (h : i < n) : t.get? i = some (t.row i) := if_pos h

theorem set?_eq {t : RowTable n α} {i : Nat} (h : i < n) (v : α) :
    t.set? i v = some ⟨Function.update t.row i v⟩ := if_pos h

theorem get?_bind {β : Type} {t : RowTable n α} {i : Nat} (h : i < n) (f : α → Option β) :
    (t.get? i >>= f) = f (t.row i) := by
  rw [get?_eq h]
  rfl

theorem set?_bind {β : Type} {t : RowTable n α} {i : Nat} (h : i < n) (v : α) (f : RowTable n α → Option β) :
    (t.set? i v >>= f) = f ⟨Function.update t.row i v⟩ := by
  rw [set?_eq h]
  rfl

end RowTable

/-- The first rows of G are those of the identity, the others stay as an earlier call has left them. -/
theorem sourceRows_spec (nin : Nat) (G : RowTable kMaxCodingSize Buffer) (h : nin ≤ kMaxCodingSize) :
    ∃ t, sourceRows nin G = some t ∧
      ∀ g c, t.row g c = if g < nin ∧ c < nin then if c = g then 1 else 0 else G.row g c := by
  have hl := forUpM_invariant 0 nin (fun i (G : RowTable kMaxCodingSize Buffer) => do
      let g ← G.get? i
      G.set? i (Function.update (memset g nin) i 1)) G
    (fun i t => ∀ g c, t.row g c = if g < i ∧ c < nin then if c = g then 1 else 0 else G.row g c)
    (fun g c => (if_neg (by omega)).symm)
    (by
      intro i t _ hi ht
      have hb : i < kMaxCodingSize := by omega
      refine ⟨_, (RowTable.get?_bind hb _).trans (RowTable.set?_eq hb _), fun g c => ?_⟩
      by_cases hg : g = i
      · subst hg
        dsimp only
        rw [Function.update_self]
        by_cases hc : c = g
        · subst hc
          simp [show c < nin by omega]
        · rw [Function.update_of_ne hc, memset, ht]
          simp [hc]
      · dsimp only
        rw [Function.update_of_ne hg, ht]
        exact if_congr (by omega) rfl rfl)
  rwa [Nat.zero_add] at hl

private theorem parity_inner (mt19937 : Nat → Nat → UInt32) (b nin nout i : Nat) (G : RowTable kMaxCodingSize Buffer)
    (t : RandGenerator × RowTable kMaxCodingSize Buffer) (h : nin + nout ≤ kMaxCodingSize)
    (ht : t.1 = ⟨b, i * nout⟩ ∧ ∀ g c, t.2.row g c =
      if nin ≤ g ∧ g < nin + nout ∧ c < i then coef mt19937 b nout c (g - nin) else G.row g c) :
    ∃ t', forUpM 0 nout (fun j s => do
        let (c, psrand) := s.1.randInt mt19937 FIELD_SIZE
        let g ← s.2.get? (j + nin)
        let G ← s.2.set? (j + nin) (Function.update g i (.ofNat c))
        some (psrand, G)) t = some t' ∧
      t'.1 = ⟨b, (i + 1) * nout⟩ ∧ ∀ g c, t'.2.row g c =
        if nin ≤ g ∧ g < nin + nout ∧ c < i + 1 then coef mt19937 b nout c (g - nin) else G.row g c := by
  have hl := forUpM_invariant 0 nout (fun j (s : RandGenerator × RowTable kMaxCodingSize Buffer) => do
      let (c, psrand) := s.1.randInt mt19937 FIELD_SIZE
      let g ← s.2.get? (j + nin)
      let G ← s.2.set? (j + nin) (Function.update g i (.ofNat c))
      some (psrand, G)) t
    (fun j s => s.1 = ⟨b, i * nout + j⟩ ∧ ∀ g c, s.2.row g c =
      if nin ≤ g ∧ g < nin + nout ∧ (c < i ∨ c = i ∧ g < nin + j) then coef mt19937 b nout c (g - nin) else G.row g c)
    (by
      refine ⟨ht.1, fun g c => ?_⟩
      rw [ht.2]
      exact if_congr (by omega) rfl rfl)
    (by
      rintro j ⟨psrand, M⟩ _ hj ⟨hp, hM⟩
      have hb : j + nin < kMaxCodingSize := by omega
      refine ⟨_, (RowTable.get?_bind hb _).trans (RowTable.set?_bind hb _ _), ?_, ?_⟩
      · rw [show psrand = ⟨b, i * nout + j⟩ from hp]
        rfl
      · intro g c
        have hp' : psrand = ⟨b, i * nout + j⟩ := hp
        by_cases hg : g = j + nin
        · subst hg
          dsimp only
          rw [Function.update_self]
          by_cases hc : c = i
          · subst hc
            rw [Function.update_self, if_pos (by omega), hp', Nat.add_sub_cancel]
            rfl
          · rw [Function.update_of_ne hc]
            exact (hM _ _).trans (if_congr (by omega) rfl rfl)
        · dsimp only
          rw [Function.update_of_ne hg]
          exact (hM _ _).trans (if_congr (by omega) rfl rfl))
  rw [Nat.zero_add] at hl
  obtain ⟨t', he, hp, hG⟩ := hl
  refine ⟨t', he, by rw [hp, Nat.add_mul, Nat.one_mul], fun g c => ?_⟩
  rw [hG]
  exact if_congr (by omega) rfl rfl

/-- The parity rows hold the coefficients in the order of the draws. -/
theorem parityRows_spec (mt19937 : Nat → Nat → UInt32) (b nin nout : Nat) (G : RowTable kMaxCodingSize Buffer)
    (h : nin + nout ≤ kMaxCodingSize) :
    ∃ t, parityRows mt19937 nin nout (⟨b, 0⟩, G) = some t ∧ ∀ g c, t.2.row g c =
      if nin ≤ g ∧ g < nin + nout ∧ c < nin then coef mt19937 b nout c (g - nin) else G.row g c := by
  have hl := forUpM_invariant 0 nin (fun i s => forUpM 0 nout
      (fun j (s : RandGenerator × RowTable kMaxCodingSize Buffer) => do
      let (c, psrand) := s.1.randInt mt19937 FIELD_SIZE
      let g ← s.2.get? (j + nin)
      let G ← s.2.set? (j + nin) (Function.update g i (.ofNat c))
      some (psrand, G)) s) (⟨b, 0⟩, G)
    (fun i t => t.1 = ⟨b, i * nout⟩ ∧ ∀ g c, t.2.row g c =
      if nin ≤ g ∧ g < nin + nout ∧ c < i then coef mt19937 b nout c (g - nin) else G.row g c)
    ⟨by simp, fun g c => (if_neg (by omega)).symm⟩
    (fun i t _ _ ht => parity_inner mt19937 b nin nout i G t h ht)
  rw [Nat.zero_add] at hl
  obtain ⟨t, he, _, hG⟩ := hl
  exact ⟨t, he, hG⟩

/-- `selectRows` lists the id in the header of each packet. -/
theorem selectRows_spec (inputPkts : RowTable kMaxCodingSize Buffer) (G : RowTable kMaxCodingSize Buffer)
    (numInput : Nat) (s : RowTable kMaxCodingSize Nat × RowTable kMaxCodingSize Nat) (h : numInput ≤ kMaxCodingSize) :
    ∃ t, selectRows inputPkts G numInput s = some t ∧
      ∀ k < numInput, t.1.row k = (CodingHdr.read (inputPkts.row k)).coefId ∧ t.2.row k = k := by
  have hl := forUpM_invariant 0 numInput (fun i (s : RowTable kMaxCodingSize Nat × RowTable kMaxCodingSize Nat) => do
      let pkt ← inputPkts.get? i
      let hdr := CodingHdr.read pkt
      let _ ← G.get? hdr.coefId
      let A ← s.1.set? i hdr.coefId
      let Y ← s.2.set? i i
      some (A, Y)) s
    (fun i t => ∀ k < i, t.1.row k = (CodingHdr.read (inputPkts.row k)).coefId ∧ t.2.row k = k)
    (fun k hk => absurd hk (by omega))
    (by
      intro i t _ hi ht
      have hb : i < kMaxCodingSize := by omega
      have hc : ((CodingHdr.read (inputPkts.row i)).coefId : Nat) < kMaxCodingSize :=
        lt_trans (CodingHdr.read (inputPkts.row i)).coefId.isLt (by decide)
      refine ⟨_, by rw [RowTable.get?_bind hb, RowTable.get?_bind hc, RowTable.set?_bind hb, RowTable.set?_bind hb],
        fun k hk => ?_⟩
      by_cases hki : k = i
      · subst hki
        simp only [Function.update_self, and_self]
      · simp only [Function.update_of_ne hki]
        exact ht k (by omega))
  rwa [Nat.zero_add] at hl

/-- With full rank X gets the combinations of the columns of Y; otherwise it stays as it is. -/
theorem gaussianSolve_spec {n : Nat} (A : Mat) (Y : Nat → Buffer) (X : RowTable n Buffer) (rowA col rowY : Nat)
    (hn : rowA ≤ n) :
    let r := gaussianElimination A (newIdentityMat col) col rowA
    ∃ X', gaussianSolve A Y X rowA col rowY = some (r.1, r.2.1, X') ∧
      (r.1 ≠ rowA → X' = X) ∧
      (r.1 = rowA → ∀ i < rowA, X'.row i = mulMat (X.row i) Y (r.2.2.get i) col rowY) := by
  intro r
  by_cases hr : r.1 = rowA
  · have hl := forUpM_invariant 0 r.1 (fun i (X : RowTable n Buffer) => do
        let z ← X.get? i
        X.set? i (mulMat z Y (r.2.2.get i) col rowY)) X
      (fun i t => ∀ g, t.row g = if g < i then mulMat (X.row g) Y (r.2.2.get g) col rowY else X.row g)
      (fun g => (if_neg (by omega)).symm)
      (by
        intro i t _ hi ht
        have hb : i < n := by omega
        refine ⟨_, (RowTable.get?_bind hb _).trans (RowTable.set?_eq hb _), fun g => ?_⟩
        dsimp only
        by_cases hg : g = i
        · subst hg
          rw [Function.update_self, if_pos (by omega), ht, if_neg (by omega)]
        · rw [Function.update_of_ne hg, ht]
          exact if_congr (by omega) rfl rfl)
    rw [Nat.zero_add] at hl
    obtain ⟨X', he, hX⟩ := hl
    refine ⟨X', ?_, fun hne => absurd hr hne, fun _ i hi => by rw [hX, if_pos (by omega)]⟩
    have hs : gaussianSolve A Y X rowA col rowY = (forUpM 0 r.1 (fun i (X : RowTable n Buffer) => do
        let z ← X.get? i
        X.set? i (mulMat z Y (r.2.2.get i) col rowY)) X).bind (fun X => some (r.1, r.2.1, X)) := if_pos hr
    rw [hs, he, Option.bind_some]
  · exact ⟨X, if_neg hr, fun _ => rfl, fun h => absurd h hr⟩

/-- Every decode of at most `kMaxCodingSize` packets is one elimination of the columns that
the headers select from G. -/
theorem decode_spec (mt19937 : Nat → Nat → UInt32) (coder : LDPC)
    (inputPkts outputPkts : RowTable kMaxCodingSize Buffer) (numInput pktSize : Nat)
    (hn : numInput ≤ kMaxCodingSize) :
    let hdr := CodingHdr.read (inputPkts.row 0)
    ∃ (A : Mat) (Y : Nat → Buffer) (out : Decoded),
      (∀ k < numInput, A.ptr k = (CodingHdr.read (inputPkts.row k)).coefId) ∧
      (∀ g < (hdr.nin : Nat) + hdr.nout, ∀ i < (hdr.nin : Nat),
        A.buf g i = column mt19937 hdr.batchId hdr.nin hdr.nout g i) ∧
      (∀ k < numInput, Y k = payload (inputPkts.row k)) ∧
      coder.decode mt19937 inputPkts outputPkts numInput pktSize = some out ∧
      out.inputPkts = inputPkts ∧
      let r := gaussianElimination A (newIdentityMat numInput) numInput hdr.nin
      (out.ok = decide ((hdr.nin : Nat) ≤ r.1)) ∧
      (r.1 ≠ hdr.nin → out.outputPkts = outputPkts) ∧
      (r.1 = hdr.nin → ∀ i < (hdr.nin : Nat),
        out.outputPkts.row i = mulMat (outputPkts.row i) Y (r.2.2.get i) numInput pktSize) := by
  intro hdr
  have hin : (hdr.nin : Nat) < 2 ^ 5 := hdr.nin.isLt
  have hout : (hdr.nout : Nat) < 2 ^ 5 := hdr.nout.isLt
  have hmax : (hdr.nin : Nat) + hdr.nout ≤ kMaxCodingSize := by
    simp only [kMaxCodingSize]
    omega
  obtain ⟨G₁, hG₁, hrow₁⟩ := sourceRows_spec hdr.nin coder.G (by omega)
  obtain ⟨⟨psrand, G₂⟩, hG₂, hrow₂⟩ := parityRows_spec mt19937 hdr.batchId hdr.nin hdr.nout G₁ hmax
  obtain ⟨⟨A, Y⟩, hAY, hsel⟩ := selectRows_spec inputPkts G₂ numInput (coder.A, coder.Y) hn
  obtain ⟨X, hX, hkeep, hwrite⟩ := gaussianSolve_spec ⟨A.row, G₂.row⟩
    (fun i => payload (inputPkts.row (Y.row i))) outputPkts hdr.nin numInput pktSize (by omega)
  let r := gaussianElimination ⟨A.row, G₂.row⟩ (newIdentityMat numInput) numInput hdr.nin
  refine ⟨⟨A.row, G₂.row⟩, fun i => payload (inputPkts.row (Y.row i)),
    ⟨decide ((hdr.nin : Nat) ≤ r.1), ⟨psrand, ⟨r.2.1.buf⟩, ⟨r.2.1.ptr⟩, Y⟩, inputPkts, X⟩,
    fun k hk => (hsel k hk).1, ?_, fun k hk => congrArg (fun i => payload (inputPkts.row i)) (hsel k hk).2,
    ?_, rfl, rfl, hkeep, hwrite⟩
  · intro g hg i hi
    have h2 := hrow₂ g i
    dsimp only at h2 ⊢
    rw [h2, hrow₁, column]
    by_cases hgn : g < hdr.nin
    · rw [if_neg (by omega), if_pos ⟨hgn, hi⟩, if_pos hgn]
    · rw [if_pos (by omega), if_neg hgn]
  · simp only [LDPC.decode, RandGenerator.reseed]
    rw [RowTable.get?_bind (by decide)]
    simp only [Option.bind_eq_bind]
    rw [show CodingHdr.read (inputPkts.row 0) = hdr from rfl, hG₁, Option.bind_some, hG₂, Option.bind_some, hAY,
      Option.bind_some, hX, Option.bind_some]

end Soar.Communication
