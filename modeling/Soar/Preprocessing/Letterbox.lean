import Soar.Library.DoubleRounding

/-! `letterbox` of `data_processer.py`: a picture is scaled into the shape that the model takes, and its border is
filled. -/
namespace Soar.Preprocessing
open Soar.Library

/-- A `numpy.ndarray` of three axes; a picture has its rows, columns and channels there. -/
structure NDArray (α : Type) where
  shape : Nat × Nat × Nat
  entry : Nat → Nat → Nat → α

/-- `img.transpose((2, 0, 1))[::-1]`: the channels in reverse order, each with its rows. -/
def NDArray.channelsFirst {α : Type} (img : NDArray α) : NDArray α where
  shape := (img.shape.2.2, img.shape.1, img.shape.2.1)
  entry c y x := img.entry y x (img.shape.2.2 - 1 - c)

/-- The functions of OpenCV and NumPy that a picture goes through: `cv2.flip` around the vertical axis, `cv2.resize` with
the width and the height of its result, `cv2.copyMakeBorder` with a constant border, `np.mod` and `np.true_divide`. -/
structure ImageLibrary where
  flip : NDArray UInt8 → NDArray UInt8
  resize : NDArray UInt8 → ℤ × ℤ → Option (NDArray UInt8)
  copyMakeBorder : NDArray UInt8 → ℤ → ℤ → ℤ → ℤ → (Nat → UInt8) → Option (NDArray UInt8)
  mod : ℤ → ℤ → ℤ
  trueDivide : NDArray UInt8 → Nat → NDArray ℚ

/-- A picture with its three channels. -/
structure NDArray.IsPicture (img : NDArray UInt8) : Prop where
  sides : 0 < img.shape.1 ∧ 0 < img.shape.2.1
  channels : img.shape.2.2 = 3

/-- The picture has a border of these widths. -/
structure Bordered (out im : NDArray UInt8) (top bottom left right : Nat) (color : Nat → UInt8) : Prop where
  shape : out.shape = (im.shape.1 + top + bottom, im.shape.2.1 + left + right, im.shape.2.2)
  entry : ∀ y < out.shape.1, ∀ x < out.shape.2.1, ∀ c < out.shape.2.2, out.entry y x c =
    if top ≤ y ∧ y < top + im.shape.1 ∧ left ≤ x ∧ x < left + im.shape.2.1 then im.entry (y - top) (x - left) c
    else color c

/-- What the libraries document of their functions; `none` is an error, `int` has 32 bits. -/
structure ImageLibrary.Documented (lib : ImageLibrary) : Prop where
  flip_shape : ∀ {img : NDArray UInt8}, img.IsPicture → (lib.flip img).shape = img.shape
  flip_entry : ∀ {img : NDArray UInt8}, img.IsPicture → ∀ y < img.shape.1, ∀ x < img.shape.2.1, ∀ c < img.shape.2.2,
    (lib.flip img).entry y x c = img.entry y (img.shape.2.1 - 1 - x) c
  resize : ∀ {im : NDArray UInt8}, im.IsPicture → ∀ {size : ℤ × ℤ}, size.1 < 2 ^ 31 → size.2 < 2 ^ 31 →
    if 0 < size.1 ∧ 0 < size.2 then
      ∃ out, lib.resize im size = some out ∧ out.shape = (size.2.toNat, size.1.toNat, im.shape.2.2)
    else lib.resize im size = none
  copyMakeBorder : ∀ {im : NDArray UInt8}, im.IsPicture → ∀ {top bottom left right : Nat} (color : Nat → UInt8),
    im.shape.1 + top + bottom < 2 ^ 31 → im.shape.2.1 + left + right < 2 ^ 31 →
    ∃ out, lib.copyMakeBorder im top bottom left right color = some out ∧ Bordered out im top bottom left right color
  trueDivide_shape : ∀ img n, (lib.trueDivide img n).shape = img.shape
  trueDivide_entry : ∀ (img : NDArray UInt8) {n : Nat}, 0 < n → ∀ i < img.shape.1, ∀ j < img.shape.2.1,
    ∀ k < img.shape.2.2, (lib.trueDivide img n).entry i j k = double ((img.entry i j k).toNat / n)

/-- The scale ratio, new by old; the shapes are a height and a width. -/
def scaleRatio (shape newShape : Nat × Nat) (scaleup : Bool) : ℚ :=
  let r := min (double (newShape.1 / shape.1)) (double (newShape.2 / shape.2))
  if scaleup then r else min r 1

/-- The width and the height of the scaled picture. -/
def unpadded (shape : Nat × Nat) (r : ℚ) : ℤ × ℤ :=
  (halfEven (double (shape.2 * r)), halfEven (double (shape.1 * r)))

/-- The two sides of a padding. -/
def padBefore (d : ℤ) : ℤ := halfEven (double (double (d / 2) - double (1 / 10)))
def padAfter (d : ℤ) : ℤ := halfEven (double (double (d / 2) + double (1 / 10)))

/-- The mode of `letterbox`: a minimal rectangle, the stretched picture, or the whole shape. -/
structure LetterboxMode where
  auto : Bool := true
  scaleFill : Bool := false
  scaleup : Bool := true
  stride : Nat := 32

/-- The scaled width and height, and the padding of both. -/
def LetterboxMode.layout (mode : LetterboxMode) (lib : ImageLibrary) (shape newShape : Nat × Nat) :
    (ℤ × ℤ) × ℤ × ℤ :=
  let newUnpad := unpadded shape (scaleRatio shape newShape mode.scaleup)
  let (dw, dh) := (newShape.2 - newUnpad.1, newShape.1 - newUnpad.2)
  if mode.auto then (newUnpad, lib.mod dw mode.stride, lib.mod dh mode.stride)
  else if mode.scaleFill then ((newShape.2, newShape.1), 0, 0)
  else (newUnpad, dw, dh)

/-- The picture before its border is filled, of the width and the height `size`. -/
def ImageLibrary.scaled (lib : ImageLibrary) (im : NDArray UInt8) (size : ℤ × ℤ) : Option (NDArray UInt8) :=
  if ((im.shape.2.1 : ℤ), (im.shape.1 : ℤ)) ≠ size then lib.resize im size else some im

def letterbox (lib : ImageLibrary) (im : NDArray UInt8) (newShape : Nat × Nat) (color : Nat → UInt8)
    (mode : LetterboxMode) : Option (NDArray UInt8) :=
  -- a side of zero is divided by
  if im.shape.1 = 0 ∨ im.shape.2.1 = 0 then none
  else
    let (newUnpad, dw, dh) := mode.layout lib (im.shape.1, im.shape.2.1) newShape
    (lib.scaled im newUnpad).bind fun im =>
      lib.copyMakeBorder im (padBefore dh) (padAfter dh) (padBefore dw) (padAfter dw) color

private theorem abs_tenth_sub_lt : |double (1 / 10) - 1 / 10| < 1 / 1000 :=
  abs_double_sub_lt (by norm_num [abs_of_pos])

private theorem abs_half_sub_lt {d : ℤ} (hnonneg : 0 ≤ d) (hd : d < 2 ^ 31) :
    |double (double (d / 2) - double (1 / 10)) - (d / 2 - 1 / 10 : ℚ)| < 3 / 100 ∧
      |double (double (d / 2) + double (1 / 10)) - (d / 2 + 1 / 10 : ℚ)| < 3 / 100 := by
  have hlow : (0 : ℚ) ≤ d := Int.cast_nonneg hnonneg
  have hhigh : (d : ℚ) < 2 ^ 31 := by exact_mod_cast hd
  have htenth := abs_lt.mp abs_tenth_sub_lt
  have hhalf : |double (d / 2 : ℚ) - d / 2| < 1 / 100 := by
    apply abs_double_sub_lt
    rw [abs_lt]
    constructor <;> linarith
  have hhalf := abs_lt.mp hhalf
  have hminus : |double (double (d / 2) - double (1 / 10)) - (double (d / 2) - double (1 / 10))| < 1 / 100 := by
    apply abs_double_sub_lt
    rw [abs_lt]
    constructor <;> linarith
  have hplus : |double (double (d / 2) + double (1 / 10)) - (double (d / 2) + double (1 / 10))| < 1 / 100 := by
    apply abs_double_sub_lt
    rw [abs_lt]
    constructor <;> linarith
  have hminus := abs_lt.mp hminus
  have hplus := abs_lt.mp hplus
  constructor
  · rw [abs_lt]
    constructor <;> linarith
  · rw [abs_lt]
    constructor <;> linarith

/-- The tenth decides the side of an odd padding. -/
theorem padBefore_eq {d : ℤ} (hnonneg : 0 ≤ d) (hd : d < 2 ^ 31) : padBefore d = d / 2 := by
  have herror := abs_lt.mp (abs_half_sub_lt hnonneg hd).1
  apply halfEven_eq
  rw [abs_lt]
  rcases Int.even_or_odd' d with ⟨m, rfl | rfl⟩
  · rw [Int.mul_ediv_cancel_left m two_ne_zero]
    push_cast at herror ⊢
    constructor <;> linarith
  · rw [show (2 * m + 1) / 2 = m by omega]
    push_cast at herror ⊢
    constructor <;> linarith

theorem padAfter_eq {d : ℤ} (hnonneg : 0 ≤ d) (hd : d < 2 ^ 31) : padAfter d = (d + 1) / 2 := by
  have herror := abs_lt.mp (abs_half_sub_lt hnonneg hd).2
  apply halfEven_eq
  rw [abs_lt]
  rcases Int.even_or_odd' d with ⟨m, rfl | rfl⟩
  · rw [show (2 * m + 1) / 2 = m by omega]
    push_cast at herror ⊢
    constructor <;> linarith
  · rw [show (2 * m + 1 + 1) / 2 = m + 1 by omega]
    push_cast at herror ⊢
    constructor <;> linarith

private theorem abs_scaled_sub_le {n m : Nat} (hn : 0 < n) : |(n * double (m / n) - m : ℚ)| ≤ m / 2 ^ 53 := by
  have hpos : (0 : ℚ) < n := Nat.cast_pos.mpr hn
  have herror := abs_double_sub_le (m / n : ℚ)
  calc |(n * double (m / n) - m : ℚ)| = n * |double (m / n : ℚ) - m / n| := by
        rw [← abs_of_pos hpos, ← abs_mul, abs_of_pos hpos, mul_sub, mul_div_cancel₀ _ hpos.ne']
    _ ≤ n * (|(m / n : ℚ)| / 2 ^ 53) := mul_le_mul_of_nonneg_left herror hpos.le
    _ = m / 2 ^ 53 := by
        rw [abs_of_nonneg (div_nonneg (Nat.cast_nonneg m) hpos.le)]
        field_simp

/-- Scaled by its own ratio a side becomes the new one. -/
theorem halfEven_scaled {n m : Nat} (hn : 0 < n) (hm : m < 2 ^ 31) : halfEven (double (n * double (m / n))) = m := by
  have hbound : (m : ℚ) < 2 ^ 31 := by exact_mod_cast hm
  have hnonneg : (0 : ℚ) ≤ m := Nat.cast_nonneg m
  have hscaled := abs_le.mp (abs_scaled_sub_le (m := m) hn)
  have herror : |double (n * double (m / n) : ℚ) - n * double (m / n)| < 1 / 4 := by
    apply abs_double_sub_lt
    rw [abs_lt]
    constructor <;> linarith
  have herror := abs_lt.mp herror
  apply halfEven_eq
  rw [Int.cast_natCast, abs_lt]
  constructor <;> linarith

/-- Scaled by no more than its ratio a side does not exceed the new one. -/
theorem halfEven_scaled_le {n m : Nat} (hn : 0 < n) (hm : m < 2 ^ 31) {r : ℚ} (hnonneg : 0 ≤ r)
    (hr : r ≤ double (m / n)) : 0 ≤ halfEven (double (n * r)) ∧ halfEven (double (n * r)) ≤ m := by
  have hbound : (m : ℚ) < 2 ^ 31 := by exact_mod_cast hm
  have hpos : (0 : ℚ) < n := Nat.cast_pos.mpr hn
  have hscaled := abs_le.mp (abs_scaled_sub_le (m := m) hn)
  have hle : n * r ≤ n * double (m / n) := mul_le_mul_of_nonneg_left hr hpos.le
  have hlow : 0 ≤ n * r := mul_nonneg hpos.le hnonneg
  have herror : |double (n * r) - n * r| < 1 / 4 := by
    apply abs_double_sub_lt
    rw [abs_lt]
    constructor <;> linarith
  have herror := abs_lt.mp herror
  refine ⟨halfEven_nonneg (double_nonneg hlow), halfEven_le ?_⟩
  rw [Int.cast_natCast]
  linarith

section
variable {mode : LetterboxMode} {lib : ImageLibrary} {shape newShape : Nat × Nat}

theorem scaleRatio_nonneg (scaleup : Bool) : 0 ≤ scaleRatio shape newShape scaleup := by
  have hheight : 0 ≤ double (newShape.1 / shape.1 : ℚ) :=
    double_nonneg (div_nonneg (Nat.cast_nonneg _) (Nat.cast_nonneg _))
  have hwidth : 0 ≤ double (newShape.2 / shape.2 : ℚ) :=
    double_nonneg (div_nonneg (Nat.cast_nonneg _) (Nat.cast_nonneg _))
  unfold scaleRatio
  split_ifs
  · exact le_min hheight hwidth
  · exact le_min (le_min hheight hwidth) zero_le_one

/-- The picture fits into the new shape in both directions. -/
theorem scaleRatio_le (scaleup : Bool) : scaleRatio shape newShape scaleup ≤ double (newShape.1 / shape.1) ∧
    scaleRatio shape newShape scaleup ≤ double (newShape.2 / shape.2) := by
  unfold scaleRatio
  split_ifs
  · exact ⟨min_le_left _ _, min_le_right _ _⟩
  · exact ⟨(min_le_left _ _).trans (min_le_left _ _), (min_le_left _ _).trans (min_le_right _ _)⟩

/-- The scaled picture lies within the new shape. -/
theorem unpadded_le (hshape : 0 < shape.1 ∧ 0 < shape.2) (hnew : newShape.1 < 2 ^ 31 ∧ newShape.2 < 2 ^ 31)
    (scaleup : Bool) :
    (0 ≤ (unpadded shape (scaleRatio shape newShape scaleup)).1 ∧
      (unpadded shape (scaleRatio shape newShape scaleup)).1 ≤ newShape.2) ∧
    0 ≤ (unpadded shape (scaleRatio shape newShape scaleup)).2 ∧
      (unpadded shape (scaleRatio shape newShape scaleup)).2 ≤ newShape.1 := by
  have hnonneg : 0 ≤ scaleRatio shape newShape scaleup := scaleRatio_nonneg scaleup
  obtain ⟨hheight, hwidth⟩ : scaleRatio shape newShape scaleup ≤ double (newShape.1 / shape.1) ∧
    scaleRatio shape newShape scaleup ≤ double (newShape.2 / shape.2) := scaleRatio_le scaleup
  exact ⟨halfEven_scaled_le hshape.2 hnew.2 hnonneg hwidth, halfEven_scaled_le hshape.1 hnew.1 hnonneg hheight⟩

/-- The size to which the picture is scaled, and its border, without `auto`. -/
theorem LetterboxMode.layout_eq (hauto : mode.auto = false) :
    mode.layout lib shape newShape =
      if mode.scaleFill then (((newShape.2 : ℤ), (newShape.1 : ℤ)), 0, 0)
      else (unpadded shape (scaleRatio shape newShape mode.scaleup),
        newShape.2 - (unpadded shape (scaleRatio shape newShape mode.scaleup)).1,
        newShape.1 - (unpadded shape (scaleRatio shape newShape mode.scaleup)).2) := by
  unfold LetterboxMode.layout
  rw [hauto]
  rfl

/-- Size and padding together are the new shape, unless a minimal rectangle is asked for. -/
theorem LetterboxMode.layout_spec (hauto : mode.auto = false) (hshape : 0 < shape.1 ∧ 0 < shape.2)
    (hnew : newShape.1 < 2 ^ 31 ∧ newShape.2 < 2 ^ 31) {size : ℤ × ℤ} {dw dh : ℤ}
    (hlayout : mode.layout lib shape newShape = (size, dw, dh)) :
    (0 ≤ size.1 ∧ 0 ≤ size.2) ∧ (0 ≤ dw ∧ size.1 + dw = newShape.2) ∧ 0 ≤ dh ∧ size.2 + dh = newShape.1 := by
  have hle := unpadded_le hshape hnew mode.scaleup
  rw [LetterboxMode.layout_eq hauto] at hlayout
  by_cases hfill : mode.scaleFill
  · rw [if_pos hfill] at hlayout
    cases hlayout
    exact ⟨⟨Int.natCast_nonneg _, Int.natCast_nonneg _⟩, ⟨le_rfl, add_zero _⟩, le_rfl, add_zero _⟩
  · rw [if_neg hfill] at hlayout
    cases hlayout
    omega

/-- Scaled up or down, the picture fills a side of the new shape. -/
theorem LetterboxMode.layout_fills (hmode : mode.auto = false ∧ mode.scaleup = true)
    (hshape : 0 < shape.1 ∧ 0 < shape.2) (hnew : newShape.1 < 2 ^ 31 ∧ newShape.2 < 2 ^ 31) :
    (mode.layout lib shape newShape).1.1 = newShape.2 ∨ (mode.layout lib shape newShape).1.2 = newShape.1 := by
  rw [LetterboxMode.layout_eq hmode.1, hmode.2]
  by_cases hfill : mode.scaleFill
  · rw [if_pos hfill]
    exact .inl rfl
  · rw [if_neg hfill, scaleRatio, if_pos rfl]
    rcases min_choice (double (newShape.1 / shape.1 : ℚ)) (double (newShape.2 / shape.2 : ℚ)) with hheight | hwidth
    · rw [hheight]
      exact .inr (halfEven_scaled hshape.1 hnew.1)
    · rw [hwidth]
      exact .inl (halfEven_scaled hshape.2 hnew.2)

end

/-- A picture is scaled unless a side of it is scaled to nothing. -/
theorem ImageLibrary.Documented.scaled_spec {lib : ImageLibrary} (hlib : lib.Documented) {im : NDArray UInt8}
    (him : im.IsPicture) {size : ℤ × ℤ} (hsize : 0 ≤ size.1 ∧ 0 ≤ size.2) (hbound : size.1 < 2 ^ 31 ∧ size.2 < 2 ^ 31) :
    if size.1 = 0 ∨ size.2 = 0 then lib.scaled im size = none
    else ∃ scaled, lib.scaled im size = some scaled ∧ scaled.shape = (size.2.toNat, size.1.toNat, 3) := by
  have hsides := him.sides
  have hresize := hlib.resize him hbound.1 hbound.2
  unfold ImageLibrary.scaled
  by_cases hsame : ((im.shape.2.1 : ℤ), (im.shape.1 : ℤ)) ≠ size
  · rw [if_pos hsame]
    by_cases hempty : size.1 = 0 ∨ size.2 = 0
    · rw [if_neg (by omega)] at hresize
      rwa [if_pos hempty]
    · rw [if_pos (by omega), him.channels] at hresize
      rwa [if_neg hempty]
  · obtain rfl := not_not.mp hsame
    rw [if_neg hsame, if_neg (by omega)]
    exact ⟨im, rfl, Prod.ext rfl (Prod.ext rfl him.channels)⟩

/-- The place of a picture in its border. -/
structure Boxed (out scaled : NDArray UInt8) (newShape : Nat × Nat) (color : Nat → UInt8) : Prop where
  shape : out.shape = (newShape.1, newShape.2, scaled.shape.2.2)
  within : scaled.shape.1 ≤ newShape.1 ∧ scaled.shape.2.1 ≤ newShape.2
  entry : ∀ y < newShape.1, ∀ x < newShape.2, ∀ c < scaled.shape.2.2, out.entry y x c =
    if (newShape.1 - scaled.shape.1) / 2 ≤ y ∧ y < (newShape.1 - scaled.shape.1) / 2 + scaled.shape.1 ∧
      (newShape.2 - scaled.shape.2.1) / 2 ≤ x ∧ x < (newShape.2 - scaled.shape.2.1) / 2 + scaled.shape.2.1 then
      scaled.entry (y - (newShape.1 - scaled.shape.1) / 2) (x - (newShape.2 - scaled.shape.2.1) / 2) c
    else color c

/-- The result has the new shape with the scaled picture in its middle, unless a side is scaled to nothing. -/
theorem letterbox_spec {lib : ImageLibrary} (hlib : lib.Documented) {im : NDArray UInt8} (him : im.IsPicture)
    {newShape : Nat × Nat} (hnew : newShape.1 < 2 ^ 31 ∧ newShape.2 < 2 ^ 31) (color : Nat → UInt8)
    {mode : LetterboxMode} (hauto : mode.auto = false) :
    let size := (mode.layout lib (im.shape.1, im.shape.2.1) newShape).1
    if size.1 = 0 ∨ size.2 = 0 then letterbox lib im newShape color mode = none
    else ∃ scaled out, lib.scaled im size = some scaled ∧ scaled.shape.2.2 = 3 ∧
      letterbox lib im newShape color mode = some out ∧ Boxed out scaled newShape color := by
  have hsides := him.sides
  rcases hlayout : mode.layout lib (im.shape.1, im.shape.2.1) newShape with ⟨size, dw, dh⟩
  obtain ⟨hsize, ⟨hdw, hwidth⟩, hdh, hheight⟩ := LetterboxMode.layout_spec hauto hsides hnew hlayout
  dsimp only
  have hcall : letterbox lib im newShape color mode = (lib.scaled im size).bind fun im =>
      lib.copyMakeBorder im (padBefore dh) (padAfter dh) (padBefore dw) (padAfter dw) color := by
    rw [letterbox, if_neg (by omega), hlayout]
  have hscaled := hlib.scaled_spec him hsize (by omega)
  rw [hcall]
  by_cases hempty : size.1 = 0 ∨ size.2 = 0
  · rw [if_pos hempty] at hscaled ⊢
    rw [hscaled]
    rfl
  · rw [if_neg hempty] at hscaled ⊢
    obtain ⟨scaled, hsome, hshape⟩ := hscaled
    have hrows : (scaled.shape.1 : ℤ) = size.2 := by
      rw [hshape]
      exact Int.toNat_of_nonneg hsize.2
    have hcolumns : (scaled.shape.2.1 : ℤ) = size.1 := by
      rw [hshape]
      exact Int.toNat_of_nonneg hsize.1
    have hchannels : scaled.shape.2.2 = 3 := congrArg (·.2.2) hshape
    obtain ⟨out, hout, hbordered⟩ := hlib.copyMakeBorder ⟨by omega, hchannels⟩ color
      (show scaled.shape.1 + (newShape.1 - scaled.shape.1) / 2 +
        (newShape.1 - scaled.shape.1 + 1) / 2 < 2 ^ 31 by omega)
      (show scaled.shape.2.1 + (newShape.2 - scaled.shape.2.1) / 2 + (newShape.2 - scaled.shape.2.1 + 1) / 2 < 2 ^ 31 by
        omega)
    refine ⟨scaled, out, hsome, hchannels, ?_, ?_⟩
    · rw [hsome, Option.bind_some, padBefore_eq hdh (by omega), padAfter_eq hdh (by omega), padBefore_eq hdw (by omega),
        padAfter_eq hdw (by omega), ← hout]
      congr 1 <;> omega
    · have hout : out.shape = (newShape.1, newShape.2, scaled.shape.2.2) := by
        rw [hbordered.shape]
        refine Prod.ext ?_ (Prod.ext ?_ rfl)
        · dsimp only
          omega
        · dsimp only
          omega
      refine ⟨hout, by omega, fun y hy x hx c hc => ?_⟩
      exact hbordered.entry y (by rwa [hout]) x (by rwa [hout]) c (by rwa [hout])

end Soar.Preprocessing
