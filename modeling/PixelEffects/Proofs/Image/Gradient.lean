import PixelEffects.Proofs.Image
import Mathlib.Tactic.TFAE
import Mathlib.Data.List.TFAE

/-!
# The Colours of the Gradient

For which sizes the channels of the test image follow the coordinates.

A channel has room for 256 steps. The side of the image is divided by 256 to find out how many pixels
make a step, and this is rounded down. So if something is left over, the steps are too short for the
side, and the last pixels are in a step for which there is no room: there the channel starts again
from zero. It is the same for all three channels, because green reaches the far corner as red and blue
do. A side below 256 has steps of one pixel, and is not long enough to run over.

Nothing else is lost. The arithmetic in words of 32 bits is exact for all sizes, since green takes the
halves of both coordinates before it adds them.

## Main definitions

* `Image.DividesEvenly`: A side that is divided into steps with nothing left over.
* `Image.RisesRight`, `Image.RisesDown`: A channel that never falls along rows or columns.
* `Image.gradientWord`: The channels as they are computed in words.

## Theorems

* `Image.get_generate`: What is read of an image that was made from a function.
* `Image.gradientWord_eq`: Words have room for everything.
* `Image.gradient_keeps_order_iff`: When channels are not cut off, and when they never fall.
-/

namespace PixelEffects

namespace Image

/-- What is read of an image that was made from a function. -/
theorem get_generate {width height x y : Nat} (f : Nat → Nat → Rgba) (hx : x < width)
    (hy : y < height) : (generate width height f).get x y = f x y := by
  have hplace := place_lt hx hy
  have hcolumn : (y * width + x) % width = x := by
    rw [Nat.mul_add_mod', Nat.mod_eq_of_lt hx]
  have hrow : (y * width + x) / width = y := by
    rw [Nat.mul_comm, Nat.mul_add_div (Nat.zero_lt_of_lt hx), Nat.div_eq_of_lt hx, Nat.add_zero]
  unfold get generate
  dsimp only
  rw [Array.getD_eq_getD_getElem?, Array.getElem?_ofFn, dif_pos hplace, Option.getD_some, hcolumn,
    hrow]

/-! ## Steps -/

/-- A side that is divided into at most 256 steps with nothing left over. -/
def DividesEvenly (size : Nat) : Prop :=
  size < 256 ∨ 256 ∣ size

theorem gradientStep_pos (size : Nat) : 0 < gradientStep size :=
  Nat.le_max_right _ _

/-- A side is divided evenly if no coordinate is behind the last step there is room for. -/
theorem dividesEvenly_iff {size : Nat} : DividesEvenly size ↔ size ≤ 256 * gradientStep size := by
  unfold DividesEvenly gradientStep
  omega

/-- Up to the end of step 255 there is room in a channel. -/
theorem div_step_le {size n : Nat} (h : n < 256 * gradientStep size) :
    n / gradientStep size ≤ 255 :=
  Nat.le_of_lt_succ ((Nat.div_lt_iff_lt_mul (gradientStep_pos size)).mpr h)

/-- With the first pixel behind that the step is 256. -/
theorem div_step_end (size : Nat) : 256 * gradientStep size / gradientStep size = 256 :=
  Nat.mul_div_cancel 256 (gradientStep_pos size)

/-- The pixel in front of it is in the last step that there is room for. -/
theorem div_step_last (size : Nat) :
    (256 * gradientStep size - 1) / gradientStep size = 255 := by
  have hpos := gradientStep_pos size
  refine Nat.div_eq_of_lt_le ?_ ?_ <;> omega

/-! ## Channels -/

/-- A channel never falls along the rows of an image. -/
def RisesRight (channel : Rgba → UInt8) (image : Image) : Prop :=
  ∀ x x' y, x ≤ x' → x' < image.width → y < image.height →
    channel (image.get x y) ≤ channel (image.get x' y)

/-- A channel never falls along the columns of an image. -/
def RisesDown (channel : Rgba → UInt8) (image : Image) : Prop :=
  ∀ x y y', y ≤ y' → x < image.width → y' < image.height →
    channel (image.get x y) ≤ channel (image.get x y')

/-- The channels of the gradient, computed in words of 32 bits. -/
def gradientWord (size x y : UInt32) : Rgba :=
  let step := max (size / 256) 1
  ⟨(x / step).toUInt8, ((x / 2 + y / 2) / step).toUInt8, (y / step).toUInt8, 255⟩

/-- Two halves of words have room in a word. -/
theorem halves_lt (x y : UInt32) : x.toNat / 2 + y.toNat / 2 < UInt32.size := by
  have hx := x.toNat_lt_size
  have hy := y.toNat_lt_size
  unfold UInt32.size at *
  omega

theorem toNat_gradientStep (size : UInt32) :
    (max (size / 256) 1).toNat = gradientStep size.toNat := by
  have hmax : max (size / 256) 1 = if size / 256 ≤ 1 then 1 else size / 256 := rfl
  unfold gradientStep
  rw [hmax]
  split
  · next hle =>
      rw [UInt32.le_iff_toNat_le, UInt32.toNat_div] at hle
      exact (Nat.max_eq_right hle).symm
  · next hgt =>
      rw [UInt32.le_iff_toNat_le, UInt32.toNat_div] at hgt
      rw [UInt32.toNat_div]
      exact (Nat.max_eq_left (Nat.le_of_not_le hgt)).symm

/-- Words have room for everything that is computed. -/
theorem gradientWord_eq (size x y : UInt32) :
    gradientWord size x y = gradientAt size.toNat x.toNat y.toNat := by
  have hhalves : (x / 2 + y / 2).toNat = x.toNat / 2 + y.toNat / 2 := by
    rw [UInt32.toNat_add, UInt32.toNat_div, UInt32.toNat_div]
    exact Nat.mod_eq_of_lt (halves_lt x y)
  unfold gradientWord gradientAt
  dsimp only
  rw [← UInt8.ofNat_uInt32ToNat, ← UInt8.ofNat_uInt32ToNat, ← UInt8.ofNat_uInt32ToNat,
    UInt32.toNat_div, UInt32.toNat_div, UInt32.toNat_div, hhalves, toNat_gradientStep]

section Sides

variable {size x y : Nat}

theorem get_gradient (hx : x < size) (hy : y < size) :
    (gradient size).get x y = gradientAt size x y :=
  get_generate _ hx hy

/-- On a side that is divided evenly there is room for all three channels. -/
theorem DividesEvenly.channels_le (h : DividesEvenly size) (hx : x < size) (hy : y < size) :
    x / gradientStep size ≤ 255 ∧ (x / 2 + y / 2) / gradientStep size ≤ 255 ∧
      y / gradientStep size ≤ 255 := by
  have hsize := dividesEvenly_iff.mp h
  refine ⟨div_step_le ?_, div_step_le ?_, div_step_le ?_⟩ <;> omega

/-- Where there is room, the channels are the steps that the coordinates are in. -/
theorem toNat_gradient (hx : x < size) (hy : y < size)
    (hroom : x / gradientStep size ≤ 255 ∧ (x / 2 + y / 2) / gradientStep size ≤ 255 ∧
      y / gradientStep size ≤ 255) :
    ((gradient size).get x y).r.toNat = x / gradientStep size ∧
      ((gradient size).get x y).g.toNat = (x / 2 + y / 2) / gradientStep size ∧
      ((gradient size).get x y).b.toNat = y / gradientStep size := by
  rcases hroom with ⟨hr, hg, hb⟩
  have hkept : ∀ {n : Nat}, n ≤ 255 → (UInt8.ofNat n).toNat = n := by
    intro n hn
    rw [UInt8.toNat_ofNat']
    exact Nat.mod_eq_of_lt (Nat.lt_succ_of_le hn)
  rw [get_gradient hx hy]
  exact ⟨hkept hr, hkept hg, hkept hb⟩

/-- If nothing of the steps is lost, nothing falls, since a later pixel is in no earlier step. -/
theorem rises_of_toNat
    (h : ∀ x y, x < size → y < size →
      ((gradient size).get x y).r.toNat = x / gradientStep size ∧
        ((gradient size).get x y).g.toNat = (x / 2 + y / 2) / gradientStep size ∧
        ((gradient size).get x y).b.toNat = y / gradientStep size) :
    (gradient size).RisesRight (·.r) ∧ (gradient size).RisesRight (·.g) ∧
      (gradient size).RisesDown (·.g) ∧ (gradient size).RisesDown (·.b) := by
  have hrow : ∀ x x' y, x ≤ x' → x' < (gradient size).width → y < (gradient size).height →
      x < size ∧ x' < size ∧ y < size :=
    fun x x' y hle hx' hy => ⟨Nat.lt_of_le_of_lt hle hx', hx', hy⟩
  refine ⟨fun x x' y hle hx' hy => ?_, fun x x' y hle hx' hy => ?_, fun x y y' hle hx hy' => ?_,
    fun x y y' hle hx hy' => ?_⟩
  · rcases hrow x x' y hle hx' hy with ⟨hx, hx', hy⟩
    rw [UInt8.le_iff_toNat_le, (h x y hx hy).1, (h x' y hx' hy).1]
    exact Nat.div_le_div_right hle
  · rcases hrow x x' y hle hx' hy with ⟨hx, hx', hy⟩
    rw [UInt8.le_iff_toNat_le, (h x y hx hy).2.1, (h x' y hx' hy).2.1]
    exact Nat.div_le_div_right (by omega)
  · rcases hrow y y' x hle hy' hx with ⟨hy, hy', hx⟩
    rw [UInt8.le_iff_toNat_le, (h x y hx hy).2.1, (h x y' hx hy').2.1]
    exact Nat.div_le_div_right (by omega)
  · rcases hrow y y' x hle hy' hx with ⟨hy, hy', hx⟩
    rw [UInt8.le_iff_toNat_le, (h x y hx hy).2.2, (h x y' hx hy').2.2]
    exact Nat.div_le_div_right hle

/-- A channel with the first pixel that there is no room for is zero again, and the pixel in front
    of it is the largest. -/
theorem not_last_le_end (size : Nat) :
    ¬ UInt8.ofNat ((256 * gradientStep size - 1) / gradientStep size) ≤
      UInt8.ofNat (256 * gradientStep size / gradientStep size) := by
  rw [div_step_last, div_step_end]
  decide

/-- If one of the channels does not fall, the side is divided evenly. -/
theorem dividesEvenly_of_rises
    (h : (gradient size).RisesRight (·.r) ∨ (gradient size).RisesRight (·.g) ∨
      (gradient size).RisesDown (·.g) ∨ (gradient size).RisesDown (·.b)) :
    DividesEvenly size := by
  refine dividesEvenly_iff.mpr (Nat.not_lt.mp fun hend => ?_)
  have hpos := gradientStep_pos size
  have hlast : 256 * gradientStep size - 1 < size := by omega
  have hbefore : 256 * gradientStep size - 2 < size := by omega
  -- Green comes to the end where both coordinates do, and one of them is two pixels before that.
  have hends : 256 * gradientStep size / 2 + 256 * gradientStep size / 2 =
      256 * gradientStep size := by omega
  have hright : (256 * gradientStep size - 2) / 2 + 256 * gradientStep size / 2 =
      256 * gradientStep size - 1 := by omega
  have hdown : 256 * gradientStep size / 2 + (256 * gradientStep size - 2) / 2 =
      256 * gradientStep size - 1 := by omega
  rcases h with h | h | h | h
  · have hle := h _ _ 0 (Nat.sub_le _ 1) hend (Nat.zero_lt_of_lt hend)
    rw [get_gradient hlast (Nat.zero_lt_of_lt hend),
      get_gradient hend (Nat.zero_lt_of_lt hend)] at hle
    exact not_last_le_end size hle
  · have hle := h _ _ _ (Nat.sub_le _ 2) hend hend
    rw [get_gradient hbefore hend, get_gradient hend hend] at hle
    unfold gradientAt at hle
    dsimp only at hle
    rw [hright, hends] at hle
    exact not_last_le_end size hle
  · have hle := h _ _ _ (Nat.sub_le _ 2) hend hend
    rw [get_gradient hend hbefore, get_gradient hend hend] at hle
    unfold gradientAt at hle
    dsimp only at hle
    rw [hdown, hends] at hle
    exact not_last_le_end size hle
  · have hle := h 0 _ _ (Nat.sub_le _ 1) (Nat.zero_lt_of_lt hend) hend
    rw [get_gradient (Nat.zero_lt_of_lt hend) hlast,
      get_gradient (Nat.zero_lt_of_lt hend) hend] at hle
    exact not_last_le_end size hle

end Sides

/-- The arithmetic of the gradient has room in words of 32 bits, for all sizes and coordinates. Its
    channels have room for the steps if and only if the side is below 256 or divisible by it; then
    they are the steps, and each of them never falls where it is to rise. For all other sizes none
    of that is so, for none of the channels. -/
theorem gradient_keeps_order_iff (size : Nat) :
    (∀ side x y : UInt32, side.toNat = size → x.toNat / 2 + y.toNat / 2 < UInt32.size ∧
      gradientWord side x y = gradientAt size x.toNat y.toNat) ∧
    List.TFAE [
      DividesEvenly size,
      ∀ x y, x < size → y < size → x / gradientStep size ≤ 255 ∧
        (x / 2 + y / 2) / gradientStep size ≤ 255 ∧ y / gradientStep size ≤ 255,
      ∀ x y, x < size → y < size →
        ((gradient size).get x y).r.toNat = x / gradientStep size ∧
          ((gradient size).get x y).g.toNat = (x / 2 + y / 2) / gradientStep size ∧
          ((gradient size).get x y).b.toNat = y / gradientStep size,
      (gradient size).RisesRight (·.r),
      (gradient size).RisesRight (·.g),
      (gradient size).RisesDown (·.g),
      (gradient size).RisesDown (·.b)] := by
  refine ⟨fun side x y hside => ⟨halves_lt x y, hside ▸ gradientWord_eq side x y⟩, ?_⟩
  tfae_have 1 → 2 := fun h x y hx hy => h.channels_le hx hy
  tfae_have 2 → 3 := fun h x y hx hy => toNat_gradient hx hy (h x y hx hy)
  tfae_have 3 → 4 := fun h => (rises_of_toNat h).1
  tfae_have 3 → 5 := fun h => (rises_of_toNat h).2.1
  tfae_have 3 → 6 := fun h => (rises_of_toNat h).2.2.1
  tfae_have 3 → 7 := fun h => (rises_of_toNat h).2.2.2
  tfae_have 4 → 1 := fun h => dividesEvenly_of_rises (.inl h)
  tfae_have 5 → 1 := fun h => dividesEvenly_of_rises (.inr (.inl h))
  tfae_have 6 → 1 := fun h => dividesEvenly_of_rises (.inr (.inr (.inl h)))
  tfae_have 7 → 1 := fun h => dividesEvenly_of_rises (.inr (.inr (.inr h)))
  tfae_finish

/-- On a side of 257 pixels, which is not divided evenly, red and blue are zero behind their largest
    value. -/
theorem gradient_starts_again :
    ¬ DividesEvenly 257 ∧ 256 / gradientStep 257 = 256 ∧
      (gradient 257).get 255 0 = ⟨255, 127, 0, 255⟩ ∧
      (gradient 257).get 256 0 = ⟨0, 128, 0, 255⟩ ∧
      (gradient 257).get 0 256 = ⟨0, 128, 0, 255⟩ := by
  refine ⟨?_, rfl, ?_, ?_, ?_⟩
  · unfold DividesEvenly
    decide
  · exact get_gradient (by decide) (by decide)
  · exact get_gradient (by decide) (by decide)
  · exact get_gradient (by decide) (by decide)

end Image

end PixelEffects
