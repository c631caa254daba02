import Soar.Computing.SharedMemory
import Soar.Preprocessing.Letterbox

/-! `DataProcesser`: from the bytes of a camera picture to the bytes that an application gets. -/
namespace Soar.Preprocessing
open Soar.Library Soar.Computing

/-- `data.reshape(shape)`. -/
def decode (shape : Nat × Nat × Nat) (data : Bytes) : NDArray UInt8 where
  shape := shape
  entry y x c := data.getD ((y * shape.2.1 + x) * shape.2.2 + c) 0

/-- `data.tobytes()` of doubles. -/
def NDArray.tobytes (img : NDArray ℚ) : Bytes :=
  (List.range img.shape.1).flatMap fun i => (List.range img.shape.2.1).flatMap fun j =>
    (List.range img.shape.2.2).flatMap fun k => doubleBytes (img.entry i j k)

/-- The size of a processed picture has the channels first. -/
structure DataProcesser where
  imgSize : Nat × Nat × Nat
  stride : Nat

namespace DataProcesser

variable (p : DataProcesser) (lib : ImageLibrary)

/-- The colour of the border. -/
def color : Nat → UInt8 := fun _ => 114

def mode : LetterboxMode := { auto := false, stride := p.stride }

/-- `_image_resize`. -/
def imageResize (img : NDArray UInt8) : Option (NDArray ℚ) :=
  (letterbox lib (lib.flip img) (p.imgSize.2.1, p.imgSize.2.2) color p.mode).map fun img =>
    lib.trueDivide (if p.imgSize.1 = 3 then img.channelsFirst else img) 255

/-- The width and the height of the picture within the result. -/
def scaledSize (img : NDArray UInt8) : ℤ × ℤ :=
  (p.mode.layout lib (img.shape.1, img.shape.2.1) (p.imgSize.2.1, p.imgSize.2.2)).1

end DataProcesser

private theorem second_notMem_doubleBytes :
    ∀ k ∈ List.range 256, (69 : UInt8) ∉ doubleBytes (double ((k : ℚ) / 255)) := by
  decide +kernel

theorem NDArray.length_tobytes (img : NDArray ℚ) :
    img.tobytes.length = img.shape.1 * (img.shape.2.1 * (img.shape.2.2 * 8)) := by
  simp [tobytes, List.length_flatMap, length_doubleBytes]

section
variable {lib : ImageLibrary} {p : DataProcesser} {img : NDArray UInt8}

/-- Whatever the picture, its text is not cut: no byte of a colour divided by 255 is the second one of the sentinel. -/
theorem ImageLibrary.Documented.sentinelFree_tobytes (hlib : lib.Documented) (img : NDArray UInt8) :
    SentinelFree (lib.trueDivide img 255).tobytes := by
  intro hinfix
  have hmem : (69 : UInt8) ∈ (lib.trueDivide img 255).tobytes := by
    apply hinfix.subset
    decide
  obtain ⟨i, hi, hmem⟩ := List.mem_flatMap.mp hmem
  obtain ⟨j, hj, hmem⟩ := List.mem_flatMap.mp hmem
  obtain ⟨k, hk, hmem⟩ := List.mem_flatMap.mp hmem
  rw [List.mem_range, hlib.trueDivide_shape] at hi hj hk
  rw [hlib.trueDivide_entry img (by decide) i hi j hj k hk] at hmem
  exact second_notMem_doubleBytes _ (List.mem_range.mpr (img.entry i j k).toNat_lt) hmem

/-- A picture of the size asked for is not scaled. -/
theorem DataProcesser.scaledSize_same (himg : 0 < img.shape.1 ∧ 0 < img.shape.2.1)
    (hsize : p.imgSize.2 = (img.shape.1, img.shape.2.1)) (hnew : img.shape.1 < 2 ^ 31 ∧ img.shape.2.1 < 2 ^ 31) :
    p.scaledSize lib img = ((img.shape.2.1 : ℤ), (img.shape.1 : ℤ)) := by
  have hone {n : Nat} (hn : 0 < n) : (n / n : ℚ) = 1 := div_self (Nat.cast_ne_zero.mpr hn.ne')
  have hscale {n : Nat} (hn : 0 < n) (hlt : n < 2 ^ 31) : halfEven (double (n * double 1)) = n := by
    have hscaled := halfEven_scaled hn hlt
    rwa [hone hn] at hscaled
  rw [DataProcesser.scaledSize, DataProcesser.mode, LetterboxMode.layout_eq rfl, if_neg Bool.false_ne_true, hsize,
    scaleRatio, if_pos rfl]
  dsimp only
  rw [hone himg.1, hone himg.2, min_self, unpadded]
  dsimp only
  rw [hscale himg.1 hnew.1, hscale himg.2 hnew.2]

/-- The processed picture: the mirrored one, scaled into the middle of a border, in the order red, green, blue. -/
structure Processed (p : DataProcesser) (lib : ImageLibrary) (img : NDArray UInt8) (out : NDArray ℚ) : Prop where
  shape : out.shape = p.imgSize
  fills : (p.scaledSize lib img).1 = p.imgSize.2.2 ∨ (p.scaledSize lib img).2 = p.imgSize.2.1
  entry : ∃ scaled box, lib.scaled (lib.flip img) (p.scaledSize lib img) = some scaled ∧ scaled.shape.2.2 = 3 ∧
    Boxed box scaled p.imgSize.2 DataProcesser.color ∧ ∀ c < 3, ∀ y < p.imgSize.2.1, ∀ x < p.imgSize.2.2,
      out.entry c y x = double ((box.entry y x (2 - c)).toNat / 255)
  same : p.imgSize.2 = (img.shape.1, img.shape.2.1) → ∀ c < 3, ∀ y < img.shape.1, ∀ x < img.shape.2.1,
    out.entry c y x = double ((img.entry y (img.shape.2.1 - 1 - x) (2 - c)).toNat / 255)
  sentinelFree : SentinelFree out.tobytes

/-- Every picture is processed, unless a side of it is scaled to nothing. -/
theorem DataProcesser.imageResize_spec (hlib : lib.Documented) (hp : p.imgSize.1 = 3)
    (hnew : p.imgSize.2.1 < 2 ^ 31 ∧ p.imgSize.2.2 < 2 ^ 31) (himg : img.IsPicture) :
    if (p.scaledSize lib img).1 = 0 ∨ (p.scaledSize lib img).2 = 0 then p.imageResize lib img = none
    else ∃ out, p.imageResize lib img = some out ∧ Processed p lib img out := by
  have hflip : (lib.flip img).shape = img.shape := hlib.flip_shape himg
  have hflipped : (lib.flip img).IsPicture := ⟨by rw [hflip]; exact himg.sides, by rw [hflip]; exact himg.channels⟩
  have hauto : p.mode.auto = false := rfl
  have hbox := @letterbox_spec lib hlib _ hflipped (p.imgSize.2.1, p.imgSize.2.2) hnew DataProcesser.color _ hauto
  have hsize : (p.mode.layout lib ((lib.flip img).shape.1, (lib.flip img).shape.2.1) (p.imgSize.2.1, p.imgSize.2.2)).1 =
      p.scaledSize lib img := by
    rw [hflip]
    rfl
  rw [hsize] at hbox
  rw [DataProcesser.imageResize]
  by_cases hempty : (p.scaledSize lib img).1 = 0 ∨ (p.scaledSize lib img).2 = 0
  · rw [if_pos hempty] at hbox ⊢
    rw [hbox]
    rfl
  · rw [if_neg hempty] at hbox ⊢
    obtain ⟨scaled, box, hscaled, hchannels, hletter, hboxed⟩ := hbox
    have hshape : box.shape = (p.imgSize.2.1, p.imgSize.2.2, 3) := by
      rw [← hchannels]
      exact hboxed.shape
    have hentry : ∀ c < 3, ∀ y < p.imgSize.2.1, ∀ x < p.imgSize.2.2,
        (lib.trueDivide box.channelsFirst 255).entry c y x = double ((box.entry y x (2 - c)).toNat / 255) := by
      intro c hc y hy x hx
      have hthree : box.channelsFirst.entry c y x = box.entry y x (2 - c) := by
        change box.entry y x (box.shape.2.2 - 1 - c) = _
        rw [hshape]
        rfl
      have hrange : c < box.channelsFirst.shape.1 ∧ y < box.channelsFirst.shape.2.1 ∧
          x < box.channelsFirst.shape.2.2 := by
        rw [NDArray.channelsFirst, hshape]
        exact ⟨hc, hy, hx⟩
      have hdivide := hlib.trueDivide_entry box.channelsFirst (n := 255)
        (by decide) c hrange.1 y hrange.2.1 x hrange.2.2
      rw [hdivide, hthree]
      rfl
    rw [hletter, Option.map_some, if_pos hp]
    refine ⟨_, rfl, ?_, ?_, ⟨scaled, box, hscaled, hchannels, hboxed, hentry⟩, ?_, hlib.sentinelFree_tobytes _⟩
    · rw [hlib.trueDivide_shape, NDArray.channelsFirst, hshape, ← hp]
    · exact LetterboxMode.layout_fills ⟨rfl, rfl⟩ himg.sides hnew
    · intro hsame c hc y hy x hx
      have hheight : p.imgSize.2.1 = img.shape.1 := congrArg Prod.fst hsame
      have hwidth : p.imgSize.2.2 = img.shape.2.1 := congrArg Prod.snd hsame
      have hbound : img.shape.1 < 2 ^ 31 ∧ img.shape.2.1 < 2 ^ 31 := by
        rw [← hheight, ← hwidth]
        exact hnew
      have hpicture : scaled = lib.flip img := by
        rw [DataProcesser.scaledSize_same himg.sides hsame hbound, ImageLibrary.scaled, hflip,
          if_neg (not_not.mpr rfl)] at hscaled
        exact (Option.some.inj hscaled).symm
      rw [hentry c hc y (hheight ▸ hy) x (hwidth ▸ hx),
        hboxed.entry y (hheight ▸ hy) x (hwidth ▸ hx) (2 - c) (by omega),
        hpicture, hflip, hheight, hwidth, Nat.sub_self, Nat.sub_self, if_pos (by omega)]
      rw [Nat.zero_div, Nat.sub_zero, Nat.sub_zero,
        hlib.flip_entry himg y hy x hx (2 - c) (by rw [himg.channels]; omega)]

end

/-- The functions of the libraries on pictures that are not scaled. -/
def unscaledLibrary : ImageLibrary where
  flip img := { img with entry := fun y x c => img.entry y (img.shape.2.1 - 1 - x) c }
  resize im size :=
    if 0 < size.1 ∧ 0 < size.2 then some ⟨(size.2.toNat, size.1.toNat, im.shape.2.2), im.entry⟩ else none
  copyMakeBorder im top bottom left right color := some {
    shape := (im.shape.1 + top.toNat + bottom.toNat, im.shape.2.1 + left.toNat + right.toNat, im.shape.2.2)
    entry := fun y x c =>
      if top.toNat ≤ y ∧ y < top.toNat + im.shape.1 ∧ left.toNat ≤ x ∧ x < left.toNat + im.shape.2.1 then
        im.entry (y - top.toNat) (x - left.toNat) c
      else color c }
  mod := Int.fmod
  trueDivide img n := ⟨img.shape, fun i j k => double ((img.entry i j k).toNat / n)⟩

theorem unscaledLibrary_documented : unscaledLibrary.Documented where
  flip_shape _ := rfl
  flip_entry _ _ _ _ _ _ _ := rfl
  resize := by
    intro im _ size _ _
    by_cases hpos : 0 < size.1 ∧ 0 < size.2
    · rw [if_pos hpos]
      exact ⟨_, if_pos hpos, rfl⟩
    · rw [if_neg hpos]
      exact if_neg hpos
  copyMakeBorder _ _ _ _ _ _ _ _ := ⟨_, rfl, rfl, fun _ _ _ _ _ _ => rfl⟩
  trueDivide_shape _ _ := rfl
  trueDivide_entry _ _ _ _ _ _ _ _ _ := rfl

/-- A row of two pixels fills the upper half of a square. -/
theorem imageResize_spec_twoPixels : ∃ out,
    (⟨(3, 2, 2), 32⟩ : DataProcesser).imageResize unscaledLibrary (decode (1, 2, 3) [1, 2, 3, 4, 5, 6]) = some out ∧
      Processed ⟨(3, 2, 2), 32⟩ unscaledLibrary (decode (1, 2, 3) [1, 2, 3, 4, 5, 6]) out := by
  have hnew : 2 < 2 ^ 31 ∧ 2 < 2 ^ 31 := by decide
  have hspec := @DataProcesser.imageResize_spec unscaledLibrary ⟨(3, 2, 2), 32⟩ (decode (1, 2, 3) [1, 2, 3, 4, 5, 6])
    unscaledLibrary_documented rfl hnew ⟨by decide, rfl⟩
  rwa [if_neg (by decide +kernel)] at hspec

end Soar.Preprocessing
