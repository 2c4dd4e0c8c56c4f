import PixelEffects.Image

/-!
# Images as Functions

An image is what it is at each coordinate.

The pixels are kept in one row after the other, and a coordinate has a place in it. Coordinates
inside an image have different places, and each place belongs to one of them. So a write changes what
is at its own coordinate and nothing else, and two images of one size that are the same at all
coordinates are the same.

## Theorems

* `Image.place_injective`, `Image.place_lt`: Places of coordinates.
* `Image.get_set_self`, `Image.get_set_of_ne`: What is read after a write.
* `Image.ext_get`: When two images are the same.
-/

namespace PixelEffects

namespace Image

/-- Coordinates inside an image have places of their own. -/
theorem place_injective {w x y x' y' : Nat} (hx : x < w) (hx' : x' < w)
    (h : y * w + x = y' * w + x') : (x, y) = (x', y') := by
  have hw : 0 < w := by omega
  -- The quotient by the width is the row, and then the column is what is left.
  have hrow : y = y' := by
    have hdiv := congrArg (· / w) h
    simpa [Nat.mul_comm _ w, Nat.mul_add_div hw, Nat.div_eq_of_lt hx, Nat.div_eq_of_lt hx']
      using hdiv
  subst hrow
  have hcol : x = x' := by omega
  rw [hcol]

theorem place_lt {w h x y : Nat} (hx : x < w) (hy : y < h) : y * w + x < w * h := by
  -- A row ends where the next one begins, and that is inside.
  have hrows : (y + 1) * w ≤ h * w := Nat.mul_le_mul_right w hy
  have hrow : (y + 1) * w = y * w + w := by rw [Nat.add_mul, Nat.one_mul]
  have hsize : w * h = h * w := Nat.mul_comm w h
  omega

@[simp]
theorem width_set (image : Image) (x y : Nat) (c : Rgba) :
    (image.set x y c).width = image.width := rfl

@[simp]
theorem height_set (image : Image) (x y : Nat) (c : Rgba) :
    (image.set x y c).height = image.height := rfl

theorem get_set_self (image : Image) {x y : Nat} (hx : x < image.width) (hy : y < image.height)
    (c : Rgba) : (image.set x y c).get x y = c := by
  have hplace : y * image.width + x < image.pixels.size := by
    rw [image.size_eq]
    exact place_lt hx hy
  unfold get set
  rw [Array.getD_eq_getD_getElem?, Array.getElem?_setIfInBounds_self_of_lt hplace]
  rfl

theorem get_set_of_ne (image : Image) {x y x' y' : Nat} (hx : x < image.width)
    (hx' : x' < image.width) (hne : (x, y) ≠ (x', y')) (c : Rgba) :
    (image.set x y c).get x' y' = image.get x' y' := by
  have hplace : y * image.width + x ≠ y' * image.width + x' :=
    fun h => hne (place_injective hx hx' h)
  unfold get set
  rw [Array.getD_eq_getD_getElem?, Array.getD_eq_getD_getElem?]
  rw [Array.getElem?_setIfInBounds_ne hplace]

/-- Images of one size are equal when they are so at each coordinate. -/
theorem ext_get {a b : Image} (hw : a.width = b.width) (hh : a.height = b.height)
    (h : ∀ x y, x < a.width → y < a.height → a.get x y = b.get x y) : a = b := by
  have hsize : a.pixels.size = b.pixels.size := by
    rw [a.size_eq, b.size_eq, hw, hh]
  refine Image.ext hw hh (Array.ext hsize ?_)
  intro i hi hi'
  -- A place is the place of a coordinate: the row is the quotient by the width.
  have hi₂ : i < a.width * a.height := by rw [← a.size_eq]; exact hi
  have hpos : 0 < a.width := Nat.pos_of_mul_pos_right (by omega : 0 < a.width * a.height)
  have hplace : i / a.width * a.width + i % a.width = i := by
    rw [Nat.mul_comm]
    exact Nat.div_add_mod i a.width
  have heq := h (i % a.width) (i / a.width) (Nat.mod_lt i hpos) (Nat.div_lt_of_lt_mul hi₂)
  unfold get at heq
  rw [← hw, hplace, Array.getD_eq_getD_getElem?, Array.getD_eq_getD_getElem?] at heq
  rw [Array.getElem?_eq_getElem hi, Array.getElem?_eq_getElem hi'] at heq
  exact heq

end Image

end PixelEffects
