/-!
# Images

Rectangles of pixels with eight bits to a channel.

The pixels of an image are kept row by row, and there are exactly as many as the two sides say; that
is part of the type. Channels are straight, not multiplied by the alpha channel.

The gradient is a test image. Red grows to the right, blue downward and green toward the far corner.
A step is as long as the side divided by 256 and rounded down, but at least one pixel.

## Main definitions

* `Rgba`: The channels of a pixel.
* `Pixel`: The channels with the coordinate.
* `Image`: A rectangle of pixels.
* `Image.get`, `Image.set`: One pixel of an image.
* `Image.gradient`: The test image.
-/

namespace PixelEffects

/-- The channels of a pixel. -/
structure Rgba where
  r : UInt8
  g : UInt8
  b : UInt8
  a : UInt8
deriving Repr, DecidableEq, Inhabited

/-- A pixel with its coordinate. -/
structure Pixel where
  x : Nat
  y : Nat
  rgba : Rgba
deriving Repr, DecidableEq

/-- A rectangle of pixels, row by row. -/
@[ext]
structure Image where
  width : Nat
  height : Nat
  pixels : Array Rgba
  size_eq : pixels.size = width * height
deriving DecidableEq

namespace Image

/-- An image of which every pixel is transparent black. -/
def blank (width height : Nat) : Image :=
  ⟨width, height, Array.replicate (width * height) ⟨0, 0, 0, 0⟩, by simp⟩

/-- An image from its pixels, if there are as many as the sides say. -/
def ofPixels? (width height : Nat) (pixels : Array Rgba) : Option Image :=
  if h : pixels.size = width * height then some ⟨width, height, pixels, h⟩ else none

/-- An image from a function of the coordinate. -/
def generate (width height : Nat) (f : Nat → Nat → Rgba) : Image :=
  ⟨width, height, Array.ofFn fun i : Fin (width * height) => f (i.val % width) (i.val / width),
    by simp⟩

/-- The channels at a coordinate. -/
def get (image : Image) (x y : Nat) : Rgba :=
  image.pixels.getD (y * image.width + x) default

/-- The pixel at a coordinate. -/
def pixel (image : Image) (x y : Nat) : Pixel :=
  ⟨x, y, image.get x y⟩

/-- Replace the channels at a coordinate. -/
def set (image : Image) (x y : Nat) (c : Rgba) : Image :=
  ⟨image.width, image.height, image.pixels.setIfInBounds (y * image.width + x) c, by
    simp [image.size_eq]⟩

/-- Whether an image has no pixels. -/
def isEmpty (image : Image) : Bool :=
  image.width == 0 || image.height == 0

/-- How many pixels make one step of the gradient. -/
def gradientStep (size : Nat) : Nat :=
  max (size / 256) 1

/-- The channels of the gradient at a coordinate. -/
def gradientAt (size x y : Nat) : Rgba :=
  let step := gradientStep size
  ⟨UInt8.ofNat (x / step), UInt8.ofNat ((x / 2 + y / 2) / step), UInt8.ofNat (y / step), 255⟩

/-- A square test image: red follows `x`, blue follows `y`, and green follows both. -/
def gradient (size : Nat) : Image :=
  generate size size (gradientAt size)

end Image

end PixelEffects
