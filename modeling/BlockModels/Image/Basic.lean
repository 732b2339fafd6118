import BlockModels.Scalar

/-!
# Images

An image is a block of pixels, row by row from the top; the number of pixels is part of its type.
Reading and writing a pixel counts through the rows, so an image is determined by `Image.get` on the
positions inside it.
-/

namespace BlockModels

/-- A pixel: red, green, blue and opacity. -/
structure Pixel where
  r : UInt8
  g : UInt8
  b : UInt8
  a : UInt8
  deriving Repr, DecidableEq, Inhabited

/-- Nothing at all. -/
def Pixel.transparent : Pixel := ⟨0, 0, 0, 0⟩

/-- A channel as a number from 0 to 255. -/
def channel {α : Type} [Scalar α] (v : UInt8) : α := Scalar.ofNat v.toNat

/-- The channel that is nearest to a number. -/
def nearestChannel {α : Type} [Scalar α] (a : α) : UInt8 :=
  Scalar.toU8 (Scalar.clamp 0 (Scalar.ofNat 255) (Scalar.round a))

/-- A box of whole pixels. -/
structure PixelBox where
  x : Nat
  y : Nat
  width : Nat
  height : Nat
  deriving Repr, DecidableEq, Inhabited

/-- The positions in a box, row by row. -/
def PixelBox.positions (b : PixelBox) : List (Nat × Nat) :=
  (List.range' b.y b.height).flatMap fun y => (List.range' b.x b.width).map fun x => (x, y)

/-- The position lies in the box. -/
def PixelBox.contains (b : PixelBox) (x y : Nat) : Bool :=
  decide (b.x ≤ x) && decide (x < b.x + b.width) && decide (b.y ≤ y) && decide (y < b.y + b.height)

/-- A picture. -/
structure Image where
  width : Nat
  height : Nat
  pixels : Array Pixel
  size_pixels : pixels.size = width * height
  deriving DecidableEq

namespace Image

/-- The picture without pixels. -/
def nothing : Image := ⟨0, 0, #[], rfl⟩

instance : Inhabited Image := ⟨nothing⟩

/-- The image with given pixels. -/
def ofFn (width height : Nat) (f : Nat → Nat → Pixel) : Image where
  width
  height
  pixels := Array.ofFn fun i : Fin (width * height) => f (i % width) (i / width)
  size_pixels := Array.size_ofFn

/-- An image of one colour. -/
def fill (width height : Nat) (p : Pixel) : Image where
  width
  height
  pixels := Array.replicate (width * height) p
  size_pixels := Array.size_replicate

/-- Reads an image from its pixels in order. -/
def ofPixels? (width height : Nat) (pixels : Array Pixel) : Option Image :=
  if h : pixels.size = width * height then some ⟨width, height, pixels, h⟩ else none

/-- Where a position is found in the order of pixels. -/
def index (img : Image) (x y : Nat) : Nat := y * img.width + x

/-- The pixel at a position; there is nothing below the last row. -/
def get (img : Image) (x y : Nat) : Pixel := img.pixels.getD (img.index x y) .transparent

/-- The opacity at a position. -/
def alpha (img : Image) (x y : Nat) : UInt8 := (img.get x y).a

/-- The image with another pixel at a position. -/
def modify (img : Image) (x y : Nat) (f : Pixel → Pixel) : Image where
  width := img.width
  height := img.height
  pixels := img.pixels.modify (y * img.width + x) f
  size_pixels := by rw [Array.size_modify, img.size_pixels]

/-- A function on every pixel. -/
def map (f : Pixel → Pixel) (img : Image) : Image where
  width := img.width
  height := img.height
  pixels := img.pixels.map f
  size_pixels := by rw [Array.size_map, img.size_pixels]

/-- The picture that stands for one that is not there: a checkerboard of two pixels a field. -/
def placeholder : Image :=
  ofFn 16 16 fun x y => if (x / 2 + y / 2) % 2 = 0 then ⟨255, 0, 255, 255⟩ else ⟨0, 0, 0, 255⟩

/-- The first rows of an image, at least one and at most all. -/
def firstFrame (img : Image) (height : Nat) : Image :=
  let rows := max 1 (min height (max img.height 1))
  if h : rows < img.height then
    { width := img.width
      height := rows
      pixels := img.pixels.extract 0 (img.width * rows)
      size_pixels := by
        rw [Array.size_extract, img.size_pixels, Nat.sub_zero]
        exact Nat.min_eq_left (Nat.mul_le_mul_left _ (Nat.le_of_lt h)) }
  else img

/-- The smallest box that holds the given positions. -/
def boxOf : List (Nat × Nat) → Option PixelBox
  | [] => none
  | (x, y) :: rest =>
    let (x₀, x₁) := rest.foldl (fun (lo, hi) p => (min lo p.1, max hi p.1)) (x, x)
    let (y₀, y₁) := rest.foldl (fun (lo, hi) p => (min lo p.2, max hi p.2)) (y, y)
    some ⟨x₀, y₀, x₁ - x₀ + 1, y₁ - y₀ + 1⟩

/-- The smallest box around the pixels in a box that can be seen. -/
def visibleBox (img : Image) (b : PixelBox) : Option PixelBox :=
  boxOf (b.positions.filter fun p => img.alpha p.1 p.2 != 0)

end Image

end BlockModels
