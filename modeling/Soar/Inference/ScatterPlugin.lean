import Mathlib.Algebra.Order.Ring.Nat
import Soar.Inference.PillarScatter

/-! `PPScatterPlugin`: from the attributes of the network through the saved engine to a launch of the kernels. -/
namespace Soar.Inference
open Soar.Library

/-- `size_t` is stored in this many bytes, the lowest first. -/
def sizeofSizeT : Nat := 8

structure PPScatterPlugin where
  featureYSize : UInt64
  featureXSize : UInt64
deriving DecidableEq

/-- The memory that a pointer walks over. -/
abbrev Cursor := (Nat → UInt8) × Nat

def writeToBuffer (d : Cursor) (val : UInt64) : Cursor :=
  (fun k => if d.2 ≤ k ∧ k < d.2 + sizeofSizeT then UInt8.ofNat (val.toNat / 256 ^ (k - d.2)) else d.1 k,
    d.2 + sizeofSizeT)

def readFromBuffer (d : Cursor) : UInt64 × Cursor :=
  (UInt64.ofNat ((List.range sizeofSizeT).map fun k => (d.1 (d.2 + k)).toNat * 256 ^ k).sum, d.1, d.2 + sizeofSizeT)

namespace PPScatterPlugin

def serialize (plugin : PPScatterPlugin) (buffer : Nat → UInt8) : Nat → UInt8 :=
  let d := writeToBuffer (buffer, 0) plugin.featureYSize
  let d := writeToBuffer d plugin.featureXSize
  d.1

def getSerializationSize : Nat := 3 * sizeofSizeT

def deserialize (data : Nat → UInt8) : PPScatterPlugin :=
  let (featureYSize, d) := readFromBuffer (data, 0)
  let (featureXSize, _) := readFromBuffer d
  ⟨featureYSize, featureXSize⟩

def clone (plugin : PPScatterPlugin) : PPScatterPlugin := ⟨plugin.featureYSize, plugin.featureXSize⟩

end PPScatterPlugin

def STATUS_SUCCESS : Int32 := 0

/-- What `pillarScatterHalfKernelLaunch` and `pillarScatterFloatKernelLaunch` return. -/
def pillarScatterKernelLaunch (cudaSuccess : Nat → Bool) (blocks : Nat) : Int32 :=
  if cudaSuccess blocks then 0 else -1

/-- A field of the plugin: its name and the first two numbers behind its data. -/
structure PluginField where
  name : String
  data : Int32 × Int32

/-- An `int` that becomes a `size_t`. -/
def sizeT (n : Int32) : UInt64 := n.toInt64.toUInt64

def createPlugin (fields : List PluginField) : PPScatterPlugin :=
  let target := fields.foldl (fun target field => if field.name = "dense_shape" then field.data else target) (0, 0)
  ⟨sizeT target.1, sizeT target.2⟩

inductive DataType
  | kFLOAT
  | kHALF
  | kINT32
  | other
deriving DecidableEq

/-- The inputs of the layer and the size of its features. -/
structure Tensors (Val : Type) where
  numFeatures : Int32
  pillarFeaturesData : UInt32 → Val
  coordsData : Nat → UInt4
  paramsData : UInt32

namespace PPScatterPlugin

variable {Val : Type} (plugin : PPScatterPlugin) (tensors : Tensors Val)

def kernelArgs : KernelArgs Val where
  pillarFeaturesData := tensors.pillarFeaturesData
  coordsData := tensors.coordsData
  paramsData := tensors.paramsData
  featureX := plugin.featureXSize.toUInt32
  featureY := plugin.featureYSize.toUInt32

/-- A kernel that is launched on an output. -/
structure Launch (args : KernelArgs Val) where
  index : UInt32 → UInt32 → UInt32 → UInt32
  kernel : BarrierKernel (Fin args.blocks) (Fin PILLARS_PER_BLOCK) (Nat × Nat) UInt32 Val
  out : UInt32 → Val

/-- A run of the kernel in which every thread takes turns for ever comes to its end, and leaves the feature map, zero in
the cells without a pillar. -/
def Launch.FillsMap [Zero Val] {args : KernelArgs Val} (launch : Launch args) : Prop :=
  ∀ (shared : Fin args.blocks → Nat × Nat → Val) (turns : Nat → Fin args.blocks × Fin PILLARS_PER_BLOCK),
    FairTurns id turns →
    ∀ state : Nat → BarrierKernel.State (Fin args.blocks) (Fin PILLARS_PER_BLOCK) (Nat × Nat) UInt32 Val,
      state 0 = ⟨shared, launch.out, fun _ _ => 0⟩ →
      (∀ k, state (k + 1) = launch.kernel.step (state k) (turns k)) →
      ∃ k, ∀ k' ≥ k, launch.kernel.Finished (state k') ∧
        ∀ x < args.featureX, ∀ y < args.featureY, ∀ i < PILLAR_FEATURE_SIZE,
          (state k').out (launch.index x y (UInt32.ofNat i)) = args.featureMap x y i 0

/-- `cudaMemsetAsync` on the output. -/
def memset [Zero Val] (out : UInt32 → Val) : UInt32 → Val := fun a =>
  let args := plugin.kernelArgs tensors
  if a.toNat < (tensors.numFeatures.toUInt32 * args.featureY * args.featureX).toNat then 0 else out a

/-- The launch of a call, or the failed assertion. What `cudaGetLastError` says of a launch is told by its blocks. -/
def enqueue [Zero Val] (cudaSuccess : Nat → Bool) (inputType : DataType) (out : UInt32 → Val) :
    Option (Launch (plugin.kernelArgs tensors)) :=
  let args := plugin.kernelArgs tensors
  match inputType with
  | .kHALF => do
    guard (pillarScatterKernelLaunch cudaSuccess args.blocks = STATUS_SUCCESS)
    return ⟨args.halfIndex, args.pillarScatterHalfkernel, plugin.memset tensors out⟩
  | .kFLOAT => do
    guard (pillarScatterKernelLaunch cudaSuccess args.blocks = STATUS_SUCCESS)
    return ⟨args.floatIndex, args.pillarScatterFloatkernel, plugin.memset tensors out⟩
  | _ => none

end PPScatterPlugin

private theorem sum_bytes (n m : Nat) : ((List.range m).map fun k => n / 256 ^ k % 256 * 256 ^ k).sum = n % 256 ^ m := by
  induction m with
  | zero => exact (Nat.mod_one n).symm
  | succ m ih =>
    rw [List.range_succ, List.map_append, List.sum_append, ih, Nat.mod_pow_succ, List.map_singleton,
      List.sum_singleton, Nat.mul_comm]

private theorem readFromBuffer_bytes {mem : Nat → UInt8} {p : Nat} {val : UInt64}
    (h : ∀ k < sizeofSizeT, mem (p + k) = UInt8.ofNat (val.toNat / 256 ^ k)) : (readFromBuffer (mem, p)).1 = val := by
  have hbytes : ((List.range sizeofSizeT).map fun k => (mem (p + k)).toNat * 256 ^ k) =
      (List.range sizeofSizeT).map fun k => val.toNat / 256 ^ k % 256 * 256 ^ k := by
    apply List.map_congr_left
    intro k hk
    rw [h k (List.mem_range.mp hk), UInt8.toNat_ofNat']
  have hval : val.toNat % 256 ^ sizeofSizeT = val.toNat := Nat.mod_eq_of_lt val.toNat_lt
  rw [readFromBuffer, hbytes, sum_bytes, hval, UInt64.ofNat_toNat]

private theorem writeToBuffer_fst (d : Cursor) (val : UInt64) {k : Nat} (hk : k < sizeofSizeT) :
    (writeToBuffer d val).1 (d.2 + k) = UInt8.ofNat (val.toNat / 256 ^ k) := by
  rw [writeToBuffer]
  dsimp only
  rw [if_pos ⟨Nat.le_add_right _ _, Nat.add_lt_add_left hk _⟩, Nat.add_sub_cancel_left]

private theorem writeToBuffer_of_lt (d : Cursor) (val : UInt64) {k : Nat} (hk : k < d.2) :
    (writeToBuffer d val).1 k = d.1 k := by
  rw [writeToBuffer]
  dsimp only
  rw [if_neg fun h => Nat.not_le.mpr hk h.1]

/-- What is saved is read back, whatever stands behind it in the buffer. -/
theorem PPScatterPlugin.deserialize_serialize (plugin : PPScatterPlugin) (buffer : Nat → UInt8) :
    deserialize (plugin.serialize buffer) = plugin := by
  let d := writeToBuffer (buffer, 0) plugin.featureYSize
  have hy : (readFromBuffer (plugin.serialize buffer, 0)).1 = plugin.featureYSize := by
    apply readFromBuffer_bytes
    intro k hk
    exact (writeToBuffer_of_lt d plugin.featureXSize (by rwa [Nat.zero_add])).trans
      (writeToBuffer_fst (buffer, 0) plugin.featureYSize hk)
  have hx : (readFromBuffer (plugin.serialize buffer, sizeofSizeT)).1 = plugin.featureXSize := by
    apply readFromBuffer_bytes
    intro k hk
    exact writeToBuffer_fst d plugin.featureXSize hk
  calc deserialize (plugin.serialize buffer) =
        ⟨(readFromBuffer (plugin.serialize buffer, 0)).1, (readFromBuffer (plugin.serialize buffer, sizeofSizeT)).1⟩ :=
          rfl
    _ = plugin := by rw [hy, hx]

/-- Of several shapes the last counts. -/
theorem createPlugin_append {before after : List PluginField} {h w : Int32}
    (hafter : ∀ field ∈ after, field.name ≠ "dense_shape") :
    createPlugin (before ++ ⟨"dense_shape", h, w⟩ :: after) = ⟨sizeT h, sizeT w⟩ := by
  have hkeep (target : Int32 × Int32) :
      after.foldl (fun target field => if field.name = "dense_shape" then field.data else target) target = target := by
    induction after with
    | nil => rfl
    | cons field after ih =>
      rw [List.foldl_cons, if_neg (hafter field (List.mem_cons_self ..))]
      exact ih fun field' hfield' => hafter field' (List.mem_cons_of_mem _ hfield')
  rw [createPlugin, List.foldl_append, List.foldl_cons, if_pos rfl, hkeep]

/-- The kernels get the number of the attribute. -/
theorem toUInt32_sizeT (n : Int32) : (sizeT n).toUInt32 = n.toUInt32 := by
  apply UInt32.toBitVec_inj.mp
  change (n.toBitVec.signExtend 64).setWidth 32 = n.toBitVec
  ext k hk
  rw [BitVec.getElem_setWidth, BitVec.getLsbD_signExtend]
  simp [hk, Nat.lt_trans hk (by decide : 32 < 64)]

variable {Val : Type} [Zero Val] {plugin : PPScatterPlugin} {tensors : Tensors Val}

namespace PPScatterPlugin

private theorem memset_eq_zero (h : (plugin.kernelArgs tensors).Pillars)
    (hfeatures : tensors.numFeatures.toUInt32 = UInt32.ofNat PILLAR_FEATURE_SIZE) (out : UInt32 → Val) {a : UInt32}
    (ha : a.toNat < PILLAR_FEATURE_SIZE *
      ((plugin.kernelArgs tensors).featureX.toNat * (plugin.kernelArgs tensors).featureY.toNat)) :
    plugin.memset tensors out a = 0 := by
  have hroom := h.room
  have hsize : (UInt32.ofNat PILLAR_FEATURE_SIZE * (plugin.kernelArgs tensors).featureY *
      (plugin.kernelArgs tensors).featureX).toNat = PILLAR_FEATURE_SIZE *
        ((plugin.kernelArgs tensors).featureX.toNat * (plugin.kernelArgs tensors).featureY.toNat) := by
    have hfeature : (UInt32.ofNat PILLAR_FEATURE_SIZE).toNat = PILLAR_FEATURE_SIZE := rfl
    rw [UInt32.toNat_mul, UInt32.toNat_mul, hfeature, Nat.mod_mul_mod, Nat.mul_assoc,
      Nat.mul_comm (plugin.kernelArgs tensors).featureY.toNat]
    exact Nat.mod_eq_of_lt hroom
  rw [memset, hfeatures, hsize, if_pos ha]

private theorem launch_featureMap (h : (plugin.kernelArgs tensors).Pillars)
    (hfeatures : tensors.numFeatures.toUInt32 = UInt32.ofNat PILLAR_FEATURE_SIZE) (out : UInt32 → Val)
    {index : UInt32 → UInt32 → UInt32 → UInt32} (hlayout : (plugin.kernelArgs tensors).Layout index)
    (hindex : ∀ x < (plugin.kernelArgs tensors).featureX, ∀ y < (plugin.kernelArgs tensors).featureY,
      ∀ i < PILLAR_FEATURE_SIZE, (index x y (UInt32.ofNat i)).toNat < PILLAR_FEATURE_SIZE *
        ((plugin.kernelArgs tensors).featureX.toNat * (plugin.kernelArgs tensors).featureY.toNat)) :
    (⟨index, (plugin.kernelArgs tensors).pillarScatterKernel index, plugin.memset tensors out⟩ :
      Launch (plugin.kernelArgs tensors)).FillsMap := by
  intro shared turns hfair state hzero hstate
  obtain ⟨k, hk⟩ := h.eventually_featureMap hlayout shared _ hfair state hzero hstate
  refine ⟨k, fun k' hle => ⟨(hk k' hle).1, ?_⟩⟩
  intro x hx y hy i hi
  have hmap := (hk k' hle).2 x hx y hy i hi
  dsimp only at hmap ⊢
  rw [hmap, memset_eq_zero h hfeatures out (hindex x hx y hy i hi)]

/-- A call fails where the runtime does not launch its blocks. -/
theorem enqueue_isSome_iff {cudaSuccess : Nat → Bool} {inputType : DataType}
    (htype : inputType = .kHALF ∨ inputType = .kFLOAT) (out : UInt32 → Val) :
    (plugin.enqueue tensors cudaSuccess inputType out).isSome ↔ cudaSuccess (plugin.kernelArgs tensors).blocks := by
  have hstatus : pillarScatterKernelLaunch cudaSuccess (plugin.kernelArgs tensors).blocks = STATUS_SUCCESS ↔
      cudaSuccess (plugin.kernelArgs tensors).blocks := by
    rw [pillarScatterKernelLaunch]
    split_ifs with h
    · exact iff_of_true rfl h
    · exact iff_of_false (by decide) h
  rw [← hstatus]
  by_cases h : pillarScatterKernelLaunch cudaSuccess (plugin.kernelArgs tensors).blocks = STATUS_SUCCESS
  · rcases htype with rfl | rfl <;> simp [enqueue, guard, h]
  · rcases htype with rfl | rfl <;> simp [enqueue, guard, h]

/-- A successful launch fills the map, for both types of features. -/
theorem enqueue_fillsMap (h : (plugin.kernelArgs tensors).Pillars)
    (hfeatures : tensors.numFeatures.toUInt32 = UInt32.ofNat PILLAR_FEATURE_SIZE) {cudaSuccess : Nat → Bool}
    {inputType : DataType} {out : UInt32 → Val} {launch : Launch (plugin.kernelArgs tensors)}
    (hlaunch : plugin.enqueue tensors cudaSuccess inputType out = some launch) : launch.FillsMap := by
  unfold enqueue at hlaunch
  cases inputType with
  | kHALF =>
    obtain ⟨-, -, hlaunch⟩ := Option.bind_eq_some_iff.mp hlaunch
    obtain rfl := Option.some.inj hlaunch
    refine launch_featureMap h hfeatures out h.layout_half ?_
    intro x hx y hy i hi
    exact KernelArgs.halfIndex_lt h hx hy hi
  | kFLOAT =>
    obtain ⟨-, -, hlaunch⟩ := Option.bind_eq_some_iff.mp hlaunch
    obtain rfl := Option.some.inj hlaunch
    refine launch_featureMap h hfeatures out h.layout_float ?_
    intro x hx y hy i hi
    exact KernelArgs.floatIndex_lt h hx hy hi
  | kINT32 | other => cases hlaunch

/-- Nothing is written past the size that is told. -/
theorem serialize_of_le {plugin : PPScatterPlugin} {k : Nat} (h : getSerializationSize ≤ k) (buffer : Nat → UInt8) :
    plugin.serialize buffer k = buffer k := by
  have hsize : getSerializationSize = 24 := rfl
  have hword : sizeofSizeT = 8 := rfl
  have hx : ¬ (0 + sizeofSizeT ≤ k ∧ k < 0 + sizeofSizeT + sizeofSizeT) := by omega
  have hy : ¬ (0 ≤ k ∧ k < 0 + sizeofSizeT) := by omega
  exact (if_neg hx).trans (if_neg hy)

end PPScatterPlugin

namespace PPScatterPlugin

/-- The runtime launches the blocks of every map that is not empty. -/
theorem enqueue_isSome_of_pillars (hpillars : (plugin.kernelArgs tensors).Pillars) {cudaSuccess : Nat → Bool}
    (hlaunch : ∀ blocks, cudaSuccess blocks ↔ 0 < blocks ∧ blocks < 2 ^ 31) {inputType : DataType}
    (htype : inputType = .kHALF ∨ inputType = .kFLOAT) (out : UInt32 → Val) :
    (plugin.enqueue tensors cudaSuccess inputType out).isSome ↔
      (plugin.kernelArgs tensors).featureY ≠ 0 ∧ (plugin.kernelArgs tensors).featureX ≠ 0 := by
  have hne (n : UInt32) : n ≠ 0 ↔ n.toNat ≠ 0 := not_congr UInt32.toNat_inj.symm
  have hcells := hpillars.cells_le
  rw [enqueue_isSome_iff htype, hlaunch, hpillars.blocks_eq, hne, hne]
  calc _ ↔ (plugin.kernelArgs tensors).featureX.toNat * (plugin.kernelArgs tensors).featureY.toNat ≠ 0 := by omega
    _ ↔ _ := Nat.mul_ne_zero_iff.trans and_comm

end PPScatterPlugin

/-- The layer of a saved engine has the shape of its attribute. A call of it fails if a side is zero, and otherwise comes
to its end and leaves the feature map, whichever type its features have and in whatever order the threads take their
turns. -/
theorem saved_plugin_fillsMap {before after : List PluginField} {h w : Int32}
    (hafter : ∀ field ∈ after, field.name ≠ "dense_shape") (engine : Nat → UInt8) (tensors : Tensors Val)
    (hfeatures : tensors.numFeatures.toUInt32 = UInt32.ofNat PILLAR_FEATURE_SIZE) {cudaSuccess : Nat → Bool}
    (hlaunch : ∀ blocks, cudaSuccess blocks ↔ 0 < blocks ∧ blocks < 2 ^ 31) {inputType : DataType}
    (htype : inputType = .kHALF ∨ inputType = .kFLOAT) (out : UInt32 → Val) :
    let saved := (createPlugin (before ++ ⟨"dense_shape", h, w⟩ :: after)).serialize engine
    let plugin := (PPScatterPlugin.deserialize saved).clone
    (∀ k ≥ PPScatterPlugin.getSerializationSize, saved k = engine k) ∧
      (plugin.kernelArgs tensors).featureX = w.toUInt32 ∧ (plugin.kernelArgs tensors).featureY = h.toUInt32 ∧
        ((plugin.kernelArgs tensors).Pillars →
          ((plugin.enqueue tensors cudaSuccess inputType out).isSome ↔ h ≠ 0 ∧ w ≠ 0) ∧
            ∀ launch, plugin.enqueue tensors cudaSuccess inputType out = some launch → launch.FillsMap) := by
  intro saved plugin
  have hplugin : plugin = ⟨sizeT h, sizeT w⟩ := by
    rw [← createPlugin_append hafter]
    exact congrArg PPScatterPlugin.clone (PPScatterPlugin.deserialize_serialize _ engine)
  rw [hplugin]
  have hne (n : Int32) : n.toUInt32 ≠ 0 ↔ n ≠ 0 :=
    not_congr ⟨congrArg Int32.ofUInt32, congrArg Int32.toUInt32⟩
  refine ⟨fun k hk => PPScatterPlugin.serialize_of_le hk engine, toUInt32_sizeT w, toUInt32_sizeT h,
    fun hpillars => ⟨?_, ?_⟩⟩
  · rw [PPScatterPlugin.enqueue_isSome_of_pillars hpillars hlaunch htype out, ← hne, ← hne]
    exact Iff.of_eq (congrArg₂ And (congrArg (· ≠ 0) (toUInt32_sizeT h)) (congrArg (· ≠ 0) (toUInt32_sizeT w)))
  · intro launch heq
    exact PPScatterPlugin.enqueue_fillsMap hpillars hfeatures heq

/-- One pillar on a map of one row and two columns. -/
private def exampleTensors : Tensors Nat where
  numFeatures := Int32.ofNat PILLAR_FEATURE_SIZE
  pillarFeaturesData a := a.toNat + 1
  coordsData _ := ⟨UInt32.ofNat 0, UInt32.ofNat 0, UInt32.ofNat 0, UInt32.ofNat 1⟩
  paramsData := UInt32.ofNat 1

private theorem exampleTensors_pillars :
    ((PPScatterPlugin.mk (sizeT 1) (sizeT 2)).kernelArgs exampleTensors).Pillars where
  room := by decide
  inside := by
    have hx : UInt32.ofNat 1 < (sizeT 2).toUInt32 := by decide
    have hy : UInt32.ofNat 0 < (sizeT 1).toUInt32 := by decide
    intro p _
    exact ⟨hx, hy⟩
  distinct := by
    intro p hp p' hp' _ _
    have hcount : ((PPScatterPlugin.mk (sizeT 1) (sizeT 2)).kernelArgs exampleTensors).paramsData.toNat = 1 := rfl
    omega

/-- The grids that a device launches. -/
def launchesGrid (blocks : Nat) : Bool := 0 < blocks ∧ blocks < 2 ^ 31

/-- A map of one column and two rows. -/
theorem saved_plugin_fillsMap_example :
    ∃ launch, (PPScatterPlugin.deserialize
      ((createPlugin [⟨"dense_shape", 1, 2⟩]).serialize fun _ => 255)).clone.enqueue exampleTensors launchesGrid .kHALF
        (fun _ => 7) = some launch ∧ launch.FillsMap := by
  have hsaved : (PPScatterPlugin.deserialize ((createPlugin [⟨"dense_shape", 1, 2⟩]).serialize fun _ => 255)).clone =
      ⟨sizeT 1, sizeT 2⟩ := by
    rw [PPScatterPlugin.deserialize_serialize]
    rfl
  have hpillars : (PPScatterPlugin.kernelArgs
      (PPScatterPlugin.deserialize ((createPlugin [⟨"dense_shape", 1, 2⟩]).serialize fun _ => 255)).clone
        exampleTensors).Pillars := by
    rw [hsaved]
    exact exampleTensors_pillars
  obtain ⟨hsome, hfills⟩ := (@saved_plugin_fillsMap _ _ [] [] 1 2 (by simp)
      (fun _ => 255) exampleTensors rfl launchesGrid
    (fun blocks => decide_eq_true_iff) _ (.inl rfl) fun _ => 7).2.2.2 hpillars
  obtain ⟨launch, hlaunch⟩ := Option.isSome_iff_exists.mp (hsome.mpr (by decide))
  exact ⟨launch, hlaunch, hfills launch hlaunch⟩

end Soar.Inference
