import Mathlib.Data.Fintype.Card
import Soar.Library.BarrierKernel

/-! `pillarScatterKernels.cu`: the blocks of a launch scatter the features of the pillars into a feature map. -/
namespace Soar.Inference
open Soar.Library

def PILLARS_PER_BLOCK : Nat := 64

def PILLAR_FEATURE_SIZE : Nat := 64

/-- `uint4`. -/
structure UInt4 where
  x : UInt32
  y : UInt32
  z : UInt32
  w : UInt32

/-- What a kernel is launched on; of `params_data` it reads the first element. -/
structure KernelArgs (Val : Type) where
  pillarFeaturesData : UInt32 → Val
  coordsData : Nat → UInt4
  paramsData : UInt32
  featureX : UInt32
  featureY : UInt32

/-- An `int` where an `unsigned int` is expected. -/
def unsigned (n : Int) : Nat := (n % 2 ^ 32).toNat

namespace KernelArgs

variable {Val : Type} (args : KernelArgs Val)

def numPillars : Int := args.paramsData.toInt32.toInt

def validBlocks : Int := (args.numPillars + PILLARS_PER_BLOCK - 1).tdiv PILLARS_PER_BLOCK

def validPillarsInBlock (blockIdx : Nat) : Int :=
  let valid := if blockIdx = unsigned (args.validBlocks - 1) then args.numPillars.tmod PILLARS_PER_BLOCK
    else PILLARS_PER_BLOCK
  if valid = 0 then PILLARS_PER_BLOCK else valid

def pillarIdx (blockIdx threadIdx : Nat) : Int :=
  (UInt32.ofNat blockIdx * UInt32.ofNat PILLARS_PER_BLOCK + UInt32.ofNat threadIdx).toInt32.toInt

def blocks : Nat :=
  ((args.featureX * args.featureY + UInt32.ofNat PILLARS_PER_BLOCK - 1) / UInt32.ofNat PILLARS_PER_BLOCK).toNat

/-- Both kernels, by where they place the features of a cell. -/
def pillarScatterKernel (index : UInt32 → UInt32 → UInt32 → UInt32) :
    BarrierKernel (Fin args.blocks) (Fin PILLARS_PER_BLOCK) (Nat × Nat) UInt32 Val where
  loads b t :=
    if unsigned args.validBlocks ≤ b then []
    else
      (List.range (args.validPillarsInBlock b).toNat).map fun i =>
        ((i, t.val), args.pillarFeaturesData
          ((UInt32.ofNat b * UInt32.ofNat PILLARS_PER_BLOCK + UInt32.ofNat i) * UInt32.ofNat PILLAR_FEATURE_SIZE +
            UInt32.ofNat t))
  stores b t :=
    if unsigned args.validBlocks ≤ b then []
    else if args.numPillars ≤ pillarIdx b t then []
    else
      let coord := args.coordsData (pillarIdx b t).toNat
      (List.range PILLAR_FEATURE_SIZE).map fun i => ((t.val, i), index coord.w coord.z (UInt32.ofNat i))

/-- `kHWC8`. -/
def halfIndex (x y i : UInt32) : UInt32 :=
  let cStride := UInt32.ofNat ((PILLAR_FEATURE_SIZE + 7) / 8 * 8)
  y * args.featureX * cStride + x * cStride + i

def floatIndex (x y i : UInt32) : UInt32 := i * args.featureY * args.featureX + y * args.featureX + x

def pillarScatterHalfkernel : BarrierKernel (Fin args.blocks) (Fin PILLARS_PER_BLOCK) (Nat × Nat) UInt32 Val :=
  args.pillarScatterKernel args.halfIndex

def pillarScatterFloatkernel : BarrierKernel (Fin args.blocks) (Fin PILLARS_PER_BLOCK) (Nat × Nat) UInt32 Val :=
  args.pillarScatterKernel args.floatIndex

/-- The pillars lie in different cells of a map whose features 32 bits can count. -/
structure Pillars : Prop where
  room : PILLAR_FEATURE_SIZE * (args.featureX.toNat * args.featureY.toNat) < 2 ^ 32
  inside : ∀ p < args.paramsData.toNat, (args.coordsData p).w < args.featureX ∧ (args.coordsData p).z < args.featureY
  distinct : ∀ p < args.paramsData.toNat, ∀ p' < args.paramsData.toNat,
    (args.coordsData p).w = (args.coordsData p').w → (args.coordsData p).z = (args.coordsData p').z → p = p'

/-- The feature `i` of the pillar `p`. -/
def feature (p i : Nat) : Val := args.pillarFeaturesData (UInt32.ofNat (p * PILLAR_FEATURE_SIZE + i))

variable {args}

/-- There are no more pillars than cells. -/
theorem Pillars.count_le (h : args.Pillars) : args.paramsData.toNat ≤ args.featureX.toNat * args.featureY.toNat := by
  let cell (p : Fin args.paramsData.toNat) : Fin args.featureX.toNat × Fin args.featureY.toNat :=
    (⟨(args.coordsData p).w.toNat, UInt32.lt_iff_toNat_lt.mp (h.inside p p.isLt).1⟩,
      ⟨(args.coordsData p).z.toNat, UInt32.lt_iff_toNat_lt.mp (h.inside p p.isLt).2⟩)
  have hinj : Function.Injective cell := by
    intro p p' heq
    obtain ⟨hw, hz⟩ := Prod.mk.inj heq
    exact Fin.ext (h.distinct p p.isLt p' p'.isLt (UInt32.toNat_inj.mp (Fin.mk.inj hw))
      (UInt32.toNat_inj.mp (Fin.mk.inj hz)))
  have hcard := Fintype.card_le_of_injective cell hinj
  rwa [Fintype.card_prod, Fintype.card_fin, Fintype.card_fin, Fintype.card_fin] at hcard

theorem Pillars.cells_le (h : args.Pillars) : args.featureX.toNat * args.featureY.toNat ≤ 2 ^ 26 := by
  have hroom := h.room
  rw [PILLAR_FEATURE_SIZE] at hroom
  omega

theorem Pillars.numPillars_eq (h : args.Pillars) : args.numPillars = args.paramsData.toNat := by
  have hcount := h.count_le
  have hcells := h.cells_le
  rw [numPillars, Int32.toInt, UInt32.toBitVec_toInt32, BitVec.toInt_eq_toNat_of_lt]
  · rfl
  · have : args.paramsData.toBitVec.toNat = args.paramsData.toNat := rfl
    omega

/-- The first blocks have 64 pillars each to scatter. -/
theorem Pillars.validBlocks_eq (h : args.Pillars) :
    args.validBlocks = ((args.paramsData.toNat + 63) / 64 : Nat) := by
  rw [validBlocks, h.numPillars_eq, PILLARS_PER_BLOCK, Int.tdiv_eq_ediv_of_nonneg (by omega)]
  omega

theorem unsigned_of_lt {n : Nat} (h : n < 2 ^ 32) : unsigned n = n := by
  rw [unsigned]
  omega

theorem Pillars.unsigned_validBlocks (h : args.Pillars) :
    unsigned args.validBlocks = (args.paramsData.toNat + 63) / 64 := by
  have hcount := h.count_le
  have hcells := h.cells_le
  rw [h.validBlocks_eq, unsigned_of_lt (by omega)]

/-- The last block takes what is left. -/
theorem Pillars.validPillarsInBlock_eq (h : args.Pillars) {b : Nat} (hb : b < (args.paramsData.toNat + 63) / 64) :
    (args.validPillarsInBlock b).toNat = min 64 (args.paramsData.toNat - b * 64) := by
  have hcount := h.count_le
  have hcells := h.cells_le
  have hlast : unsigned (args.validBlocks - 1) = (args.paramsData.toNat + 63) / 64 - 1 := by
    rw [h.validBlocks_eq, unsigned]
    omega
  have hrest : (args.paramsData.toNat : Int).tmod 64 = args.paramsData.toNat % 64 :=
    Int.tmod_eq_emod_of_nonneg (by omega)
  simp only [validPillarsInBlock, hlast, h.numPillars_eq, PILLARS_PER_BLOCK, Int.cast_ofNat_Int, hrest]
  split_ifs <;> omega

/-- The grid has a block for every 64 cells of the map. -/
theorem Pillars.blocks_eq (h : args.Pillars) : args.blocks = (args.featureX.toNat * args.featureY.toNat + 63) / 64 := by
  have hcells := h.cells_le
  have hprod : (args.featureX * args.featureY).toNat = args.featureX.toNat * args.featureY.toNat := by
    rw [UInt32.toNat_mul]
    omega
  have hone : (1 : UInt32).toNat = 1 := rfl
  have hblock : (UInt32.ofNat 64).toNat = 64 := rfl
  rw [blocks, PILLARS_PER_BLOCK, UInt32.toNat_div, UInt32.toNat_sub, UInt32.toNat_add, hprod, hone, hblock]
  omega

/-- Every pillar has a thread. -/
theorem Pillars.block_lt (h : args.Pillars) {p : Nat} (hp : p < args.paramsData.toNat) : p / 64 < args.blocks := by
  have hcount := h.count_le
  rw [h.blocks_eq]
  omega

theorem Pillars.pillarIdx_eq (h : args.Pillars) (b : Fin args.blocks) (t : Fin PILLARS_PER_BLOCK) :
    pillarIdx b t = (b.val * 64 + t.val : Nat) := by
  have hcells := h.cells_le
  have hb : b.val < (args.featureX.toNat * args.featureY.toNat + 63) / 64 := h.blocks_eq ▸ b.isLt
  have ht : t.val < 64 := t.isLt
  have hidx : (UInt32.ofNat b * UInt32.ofNat PILLARS_PER_BLOCK + UInt32.ofNat t).toNat = b * 64 + t := by
    have hblock : (UInt32.ofNat PILLARS_PER_BLOCK).toNat = 64 := rfl
    rw [UInt32.toNat_add, UInt32.toNat_mul, hblock, UInt32.toNat_ofNat', UInt32.toNat_ofNat']
    omega
  rw [pillarIdx, Int32.toInt, UInt32.toBitVec_toInt32, BitVec.toInt_eq_toNat_of_lt]
  · exact congrArg Int.ofNat hidx
  · have : (UInt32.ofNat b * UInt32.ofNat PILLARS_PER_BLOCK + UInt32.ofNat t).toBitVec.toNat = b * 64 + t := hidx
    omega

/-- A pillar's features go into a row of the shared memory of its block, one by each thread. -/
theorem Pillars.mem_loads_iff (h : args.Pillars) (index : UInt32 → UInt32 → UInt32 → UInt32) (b : Fin args.blocks)
    (t : Fin PILLARS_PER_BLOCK) (c : Nat × Nat) (v : Val) :
    (c, v) ∈ (args.pillarScatterKernel index).loads b t ↔
      ∃ i < 64, b * 64 + i < args.paramsData.toNat ∧ c = (i, t.val) ∧ v = args.feature (b * 64 + i) t := by
  have hvalue (i : Nat) : args.pillarFeaturesData
      ((UInt32.ofNat b * UInt32.ofNat PILLARS_PER_BLOCK + UInt32.ofNat i) * UInt32.ofNat PILLAR_FEATURE_SIZE +
        UInt32.ofNat t) = args.feature (b * 64 + i) t := by
    rw [feature, UInt32.ofNat_add, UInt32.ofNat_mul, UInt32.ofNat_add, UInt32.ofNat_mul]
    rfl
  rw [pillarScatterKernel]
  dsimp only
  rw [h.unsigned_validBlocks]
  split_ifs with hreturn
  · constructor
    · intro hmem
      cases hmem
    · rintro ⟨i, hi, hlt, -⟩
      omega
  · rw [h.validPillarsInBlock_eq (by omega)]
    constructor
    · intro hmem
      obtain ⟨i, hi, heq⟩ := List.mem_map.mp hmem
      rw [List.mem_range] at hi
      rw [hvalue] at heq
      exact ⟨i, by omega, by omega, (Prod.mk.inj heq).1.symm, (Prod.mk.inj heq).2.symm⟩
    · rintro ⟨i, hi, hlt, rfl, rfl⟩
      refine List.mem_map.mpr ⟨i, List.mem_range.mpr (by omega), ?_⟩
      rw [hvalue]

theorem Pillars.loaded_iff (h : args.Pillars) (index : UInt32 → UInt32 → UInt32 → UInt32) (b : Fin args.blocks)
    (c : Nat × Nat) (v : Val) :
    (args.pillarScatterKernel index).Loaded b c v ↔ c.1 < 64 ∧ c.2 < 64 ∧ b * 64 + c.1 < args.paramsData.toNat ∧
      v = args.feature (b * 64 + c.1) c.2 := by
  constructor
  · rintro ⟨t, hmem⟩
    obtain ⟨i, hi, hlt, rfl, rfl⟩ := (h.mem_loads_iff index b t c v).mp hmem
    exact ⟨hi, t.isLt, hlt, rfl⟩
  · rintro ⟨hi, ht, hlt, rfl⟩
    exact ⟨⟨c.2, ht⟩, (h.mem_loads_iff index b _ c _).mpr ⟨c.1, hi, hlt, rfl, rfl⟩⟩

theorem Pillars.mem_stores_iff (h : args.Pillars) (index : UInt32 → UInt32 → UInt32 → UInt32) (b : Fin args.blocks)
    (t : Fin PILLARS_PER_BLOCK) (c : Nat × Nat) (a : UInt32) :
    (c, a) ∈ (args.pillarScatterKernel index).stores b t ↔
      b.val * 64 + t.val < args.paramsData.toNat ∧ ∃ i < 64, c = (t.val, i) ∧
        a = index (args.coordsData (b.val * 64 + t.val)).w (args.coordsData (b.val * 64 + t.val)).z
          (UInt32.ofNat i) := by
  have ht : t.val < 64 := t.isLt
  rw [pillarScatterKernel]
  dsimp only
  rw [h.unsigned_validBlocks, h.numPillars_eq, h.pillarIdx_eq b t]
  split_ifs with hreturn hreturn'
  · constructor
    · intro hmem
      cases hmem
    · rintro ⟨hlt, -⟩
      omega
  · constructor
    · intro hmem
      cases hmem
    · rintro ⟨hlt, -⟩
      omega
  · constructor
    · intro hmem
      obtain ⟨i, hi, heq⟩ := List.mem_map.mp hmem
      exact ⟨by omega, i, List.mem_range.mp hi, (Prod.mk.inj heq).1.symm, (Prod.mk.inj heq).2.symm⟩
    · rintro ⟨hlt, i, hi, rfl, rfl⟩
      exact List.mem_map.mpr ⟨i, List.mem_range.mpr hi, rfl⟩

/-- What is stored are the features of the pillars, at the places of their cells. -/
theorem Pillars.stored_iff (h : args.Pillars) (index : UInt32 → UInt32 → UInt32 → UInt32) (a : UInt32) (v : Val) :
    (args.pillarScatterKernel index).Stored a v ↔ ∃ p < args.paramsData.toNat, ∃ i < 64,
      a = index (args.coordsData p).w (args.coordsData p).z (UInt32.ofNat i) ∧ v = args.feature p i := by
  constructor
  · rintro ⟨b, t, c, hmem, hloaded⟩
    obtain ⟨hlt, i, hi, rfl, rfl⟩ := (h.mem_stores_iff index b t c a).mp hmem
    obtain ⟨-, -, -, rfl⟩ := (h.loaded_iff index b _ v).mp hloaded
    exact ⟨b * 64 + t, hlt, i, hi, rfl, rfl⟩
  · rintro ⟨p, hp, i, hi, rfl, rfl⟩
    have hpillar : p / 64 * 64 + p % 64 = p := Nat.div_add_mod' p 64
    have ht : p % 64 < PILLARS_PER_BLOCK := Nat.mod_lt p (by decide)
    refine ⟨⟨p / 64, h.block_lt hp⟩, ⟨p % 64, ht⟩, (p % 64, i), ?_, ?_⟩
    · rw [h.mem_stores_iff]
      dsimp only
      rw [hpillar]
      exact ⟨hp, i, hi, rfl, rfl⟩
    · rw [h.loaded_iff]
      dsimp only
      rw [hpillar]
      exact ⟨ht, hi, hp, rfl⟩

variable (args) in
/-- Different features and cells of the map have different places. -/
def Layout (index : UInt32 → UInt32 → UInt32 → UInt32) : Prop :=
  ∀ x < args.featureX, ∀ y < args.featureY, ∀ i < 64, ∀ x' < args.featureX, ∀ y' < args.featureY, ∀ i' < 64,
    index x y (UInt32.ofNat i) = index x' y' (UInt32.ofNat i') → x = x' ∧ y = y' ∧ i = i'

/-- No two threads store to one address, and each address that is read has been loaded before the barrier. -/
theorem Pillars.raceFree (h : args.Pillars) {index : UInt32 → UInt32 → UInt32 → UInt32} (hindex : args.Layout index) :
    (args.pillarScatterKernel index).RaceFree where
  loads := by
    intro b c v v' hv hv'
    obtain ⟨-, -, -, rfl⟩ := (h.loaded_iff index b c v).mp hv
    obtain ⟨-, -, -, rfl⟩ := (h.loaded_iff index b c v').mp hv'
    rfl
  stores := by
    intro a v v' hv hv'
    obtain ⟨p, hp, i, hi, rfl, rfl⟩ := (h.stored_iff index a v).mp hv
    obtain ⟨p', hp', i', hi', heq, rfl⟩ := (h.stored_iff index _ v').mp hv'
    obtain ⟨hx, hy⟩ := h.inside p hp
    obtain ⟨hx', hy'⟩ := h.inside p' hp'
    obtain ⟨hw, hz, rfl⟩ := hindex _ hx _ hy i hi _ hx' _ hy' i' hi' heq
    rw [h.distinct p hp p' hp' hw hz]
  covered := by
    intro b t c a hmem
    obtain ⟨hlt, i, hi, rfl, -⟩ := (h.mem_stores_iff index b t c a).mp hmem
    exact ⟨_, (h.loaded_iff index b (t.val, i) _).mpr ⟨t.isLt, hi, hlt, rfl⟩⟩

variable (args) in
/-- The feature `i` of the cell at `x` and `y`: that of its pillar, or what was there before. -/
def featureMap (x y : UInt32) (i : Nat) (before : Val) : Val :=
  match (List.range args.paramsData.toNat).find? fun p =>
    decide ((args.coordsData p).w = x ∧ (args.coordsData p).z = y) with
  | some p => args.feature p i
  | none => before

/-- In whatever order the threads take their turns, the launch comes to an end, and leaves the feature map. -/
theorem Pillars.eventually_featureMap (h : args.Pillars) {index : UInt32 → UInt32 → UInt32 → UInt32}
    (hindex : args.Layout index) (shared : Fin args.blocks → Nat × Nat → Val) (out : UInt32 → Val)
    {turns : Nat → Fin args.blocks × Fin PILLARS_PER_BLOCK} (hfair : FairTurns id turns)
    (state : Nat → BarrierKernel.State (Fin args.blocks) (Fin PILLARS_PER_BLOCK) (Nat × Nat) UInt32 Val)
    (hzero : state 0 = ⟨shared, out, fun _ _ => 0⟩)
    (hstate : ∀ k, state (k + 1) = (args.pillarScatterKernel index).step (state k) (turns k)) :
    ∃ k, ∀ k' ≥ k, (args.pillarScatterKernel index).Finished (state k') ∧
      ∀ x < args.featureX, ∀ y < args.featureY, ∀ i < PILLAR_FEATURE_SIZE,
        (state k').out (index x y (UInt32.ofNat i)) =
          args.featureMap x y i (out (index x y (UInt32.ofNat i))) := by
  obtain ⟨k, hk⟩ := BarrierKernel.eventually_out (h.raceFree hindex) shared out hfair state hzero hstate
  refine ⟨k, fun k' hle => ⟨(hk k' hle).1, ?_⟩⟩
  intro x hx y hy i hi
  obtain ⟨hstored, hkept⟩ := (hk k' hle).2 (index x y (UInt32.ofNat i))
  rw [featureMap]
  cases hfind : (List.range args.paramsData.toNat).find? fun p =>
      decide ((args.coordsData p).w = x ∧ (args.coordsData p).z = y) with
  | some p =>
    have hat := List.find?_some hfind
    obtain ⟨rfl, rfl⟩ := of_decide_eq_true hat
    have hp := List.mem_range.mp (List.mem_of_find?_eq_some hfind)
    exact hstored _ ((h.stored_iff index _ _).mpr ⟨p, hp, i, hi, rfl, rfl⟩)
  | none =>
    apply hkept
    intro v hv
    obtain ⟨p, hp, i', hi', heq, -⟩ := (h.stored_iff index _ v).mp hv
    obtain ⟨hw, hz⟩ := h.inside p hp
    obtain ⟨rfl, rfl, -⟩ := hindex x hx y hy i hi _ hw _ hz i' hi' heq
    have hnot := List.find?_eq_none.mp hfind p (List.mem_range.mpr hp)
    exact hnot (decide_eq_true ⟨rfl, rfl⟩)

private theorem mul_add_lt_mul {q r m n : Nat} (hq : q < m) (hr : r < n) : q * n + r < m * n :=
  calc q * n + r < q * n + n := Nat.add_lt_add_left hr _
    _ = (q + 1) * n := (Nat.succ_mul q n).symm
    _ ≤ m * n := Nat.mul_le_mul_right n hq

/-- Nothing wraps around in the place of a feature. -/
theorem floatIndex_toNat (h : args.Pillars) {x y : UInt32} {i : Nat} (hx : x < args.featureX)
    (hy : y < args.featureY) (hi : i < 64) :
    (args.floatIndex x y (UInt32.ofNat i)).toNat =
      (i * args.featureY.toNat + y.toNat) * args.featureX.toNat + x.toNat := by
  have hroom := h.room
  rw [UInt32.lt_iff_toNat_lt] at hx hy
  have hlt : (i * args.featureY.toNat + y.toNat) * args.featureX.toNat + x.toNat < 2 ^ 32 := by
    apply (mul_add_lt_mul (mul_add_lt_mul hi hy) hx).trans
    rwa [Nat.mul_assoc, Nat.mul_comm args.featureY.toNat]
  have hi' : (UInt32.ofNat i).toNat = i := by
    rw [UInt32.toNat_ofNat']
    omega
  simp only [floatIndex, UInt32.toNat_add, UInt32.toNat_mul, hi', Nat.mod_add_mod, Nat.add_mod_mod, Nat.mod_mul_mod]
  rw [← Nat.add_mul]
  exact Nat.mod_eq_of_lt hlt

theorem halfIndex_toNat (h : args.Pillars) {x y : UInt32} {i : Nat} (hx : x < args.featureX)
    (hy : y < args.featureY) (hi : i < 64) :
    (args.halfIndex x y (UInt32.ofNat i)).toNat =
      (y.toNat * args.featureX.toNat + x.toNat) * 64 + i := by
  have hroom := h.room
  rw [UInt32.lt_iff_toNat_lt] at hx hy
  have hlt : (y.toNat * args.featureX.toNat + x.toNat) * 64 + i < 2 ^ 32 := by
    apply (mul_add_lt_mul (mul_add_lt_mul hy hx) hi).trans
    rwa [Nat.mul_comm, Nat.mul_comm args.featureY.toNat]
  have hi' : (UInt32.ofNat i).toNat = i := by
    rw [UInt32.toNat_ofNat']
    omega
  have hstride : (UInt32.ofNat ((PILLAR_FEATURE_SIZE + 7) / 8 * 8)).toNat = 64 := rfl
  simp only [halfIndex, UInt32.toNat_add, UInt32.toNat_mul, hi', hstride, Nat.mod_add_mod, Nat.add_mod_mod,
    Nat.mod_mul_mod]
  rw [← Nat.add_mul]
  exact Nat.mod_eq_of_lt hlt

theorem floatIndex_lt (h : args.Pillars) {x y : UInt32} {i : Nat} (hx : x < args.featureX) (hy : y < args.featureY)
    (hi : i < PILLAR_FEATURE_SIZE) : (args.floatIndex x y (UInt32.ofNat i)).toNat <
      PILLAR_FEATURE_SIZE * (args.featureX.toNat * args.featureY.toNat) := by
  rw [floatIndex_toNat h hx hy hi, Nat.mul_comm args.featureX.toNat, ← Nat.mul_assoc]
  exact mul_add_lt_mul (mul_add_lt_mul hi (UInt32.lt_iff_toNat_lt.mp hy)) (UInt32.lt_iff_toNat_lt.mp hx)

theorem halfIndex_lt (h : args.Pillars) {x y : UInt32} {i : Nat} (hx : x < args.featureX) (hy : y < args.featureY)
    (hi : i < PILLAR_FEATURE_SIZE) : (args.halfIndex x y (UInt32.ofNat i)).toNat <
      PILLAR_FEATURE_SIZE * (args.featureX.toNat * args.featureY.toNat) := by
  rw [halfIndex_toNat h hx hy hi, Nat.mul_comm PILLAR_FEATURE_SIZE, Nat.mul_comm args.featureX.toNat]
  exact mul_add_lt_mul (mul_add_lt_mul (UInt32.lt_iff_toNat_lt.mp hy) (UInt32.lt_iff_toNat_lt.mp hx)) hi

private theorem eq_of_mul_add_eq {q q' r r' n : Nat} (hr : r < n) (hr' : r' < n) (h : q * n + r = q' * n + r') :
    q = q' ∧ r = r' := by
  have hn : 0 < n := Nat.zero_lt_of_lt hr
  have hq : q = q' := by
    have hdiv : (q * n + r) / n = (q' * n + r') / n := by rw [h]
    rwa [Nat.mul_comm q, Nat.mul_comm q', Nat.mul_add_div hn, Nat.mul_add_div hn, Nat.div_eq_of_lt hr,
      Nat.div_eq_of_lt hr'] at hdiv
  subst hq
  exact ⟨rfl, Nat.add_left_cancel h⟩

theorem Pillars.layout_float (h : args.Pillars) : args.Layout args.floatIndex := by
  intro x hx y hy i hi x' hx' y' hy' i' hi' heq
  have hnat := congrArg UInt32.toNat heq
  rw [floatIndex_toNat h hx hy hi, floatIndex_toNat h hx' hy' hi'] at hnat
  obtain ⟨hrow, hcol⟩ := eq_of_mul_add_eq (UInt32.lt_iff_toNat_lt.mp hx) (UInt32.lt_iff_toNat_lt.mp hx') hnat
  obtain ⟨hchannel, hline⟩ := eq_of_mul_add_eq (UInt32.lt_iff_toNat_lt.mp hy) (UInt32.lt_iff_toNat_lt.mp hy') hrow
  exact ⟨UInt32.toNat_inj.mp hcol, UInt32.toNat_inj.mp hline, hchannel⟩

theorem Pillars.layout_half (h : args.Pillars) : args.Layout args.halfIndex := by
  intro x hx y hy i hi x' hx' y' hy' i' hi' heq
  have hnat := congrArg UInt32.toNat heq
  rw [halfIndex_toNat h hx hy hi, halfIndex_toNat h hx' hy' hi'] at hnat
  obtain ⟨hcell, hchannel⟩ := eq_of_mul_add_eq hi hi' hnat
  obtain ⟨hline, hcol⟩ := eq_of_mul_add_eq (UInt32.lt_iff_toNat_lt.mp hx) (UInt32.lt_iff_toNat_lt.mp hx') hcell
  exact ⟨UInt32.toNat_inj.mp hcol, UInt32.toNat_inj.mp hline, hchannel⟩

end KernelArgs

end Soar.Inference
