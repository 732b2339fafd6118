import BlockModels.Atlas.Outline
import BlockModels.Atlas.Packing
import BlockModels.Image.Fragment

/-!
# Atlases

Image fragments are copied into one image, the atlas. Of each fragment the whole pixels are copied
that its rectangle touches (`Footprint`), and its placement keeps the fraction of a pixel by which
the rectangle begins later than they do.

The copying is a list of rows (`RowCopy`): so many pixels from one position in the order of the
fragment's pixels to one in the order of the atlas's. A row that does not lie in both images cannot
be copied, and then there is no atlas.
-/

namespace BlockModels

/-- The whole pixels that a rectangle on an image touches. -/
structure Footprint (α : Type) where
  box : PixelBox
  /-- How far inside the box the rectangle begins. -/
  remainder : Vec2 α
  /-- The size of the rectangle. -/
  size : Vec2 α
  deriving Inhabited

/-- Pixels in a row, to be copied from one place to another. Places are counted in the order of the
pixels of an image. -/
structure RowCopy where
  source : Nat
  target : Nat
  length : Nat
  deriving Repr, DecidableEq, Inhabited

/-- One image that holds all fragments. -/
structure Atlas (α : Type) where
  image : Image
  /-- Where each fragment is, in pixels. -/
  placements : List (Placement α)
  /-- How much of the image is filled. -/
  efficiency : α
  /-- How much the image was enlarged. -/
  factor : Nat := 1
  deriving Inhabited

section

variable {α : Type} [Scalar α]

namespace Footprint

/-- What a rectangle has of an axis that is so many pixels long: the first pixel that it touches,
and the first one behind it. -/
def span (start size length : α) : α × α :=
  let first := Scalar.min (Scalar.max (Scalar.floor start) 0) length
  let behind := Scalar.min (Scalar.max (Scalar.ceil (start + size)) first) length
  (first, behind)

/-- The pixels that a fragment needs. A rectangle that is not finite needs none. -/
def of (f : ImageFragment α) : Footprint α :=
  let r := f.rect
  if r.isFinite then
    let (x₀, x₁) := span r.uv.x r.size.x (Scalar.ofNat f.image.width)
    let (y₀, y₁) := span r.uv.y r.size.y (Scalar.ofNat f.image.height)
    let across : α → Nat := Scalar.clampNat f.image.width
    let down : α → Nat := Scalar.clampNat f.image.height
    { box := ⟨across x₀, down y₀, across (x₁ - x₀), down (y₁ - y₀)⟩
      remainder := ⟨r.uv.x - x₀, r.uv.y - y₀⟩
      size := r.size }
  else ⟨⟨0, 0, 0, 0⟩, .fill 0, .fill 0⟩

/-- The size of the box. -/
def pixelSize (p : Footprint α) : PixelSize := ⟨p.box.width, p.box.height⟩

/-- Where the rectangle is when the box has its corner at a position. -/
def placedAt (p : Footprint α) (corner : Nat × Nat) (crop : Option (Crop α)) : Placement α :=
  ⟨⟨⟨Scalar.ofNat corner.1 + p.remainder.x, Scalar.ofNat corner.2 + p.remainder.y⟩, p.size⟩, crop⟩

/-- The rows by which the pixels get from an image to a position of another. -/
def rowCopies (p : Footprint α) (sourceWidth targetWidth : Nat) (corner : Nat × Nat) :
    List RowCopy :=
  (List.range p.box.height).map fun row =>
    { source := (p.box.y + row) * sourceWidth + p.box.x
      target := (corner.2 + row) * targetWidth + corner.1
      length := p.box.width }

end Footprint

namespace Image

/-- The image with another pixel at a place in the order of pixels. -/
def put (img : Image) (i : Nat) (p : Pixel) : Image where
  width := img.width
  height := img.height
  pixels := img.pixels.setIfInBounds i p
  size_pixels := by rw [Array.size_setIfInBounds, img.size_pixels]

/-- Copies pixels in a row from another image. -/
def copyRow (source img : Image) (c : RowCopy) : Image :=
  (List.range c.length).foldl
    (fun img k => img.put (c.target + k) (source.pixels.getD (c.source + k) .transparent)) img

/-- Copies a row from another image, if it lies in the pixels of both. -/
def copyRow? (source img : Image) (c : RowCopy) : Option Image :=
  if c.source + c.length ≤ source.pixels.size ∧ c.target + c.length ≤ img.pixels.size then
    some (copyRow source img c)
  else none

end Image

/-- The rectangle of a placement on an image that was enlarged. -/
def Placement.enlarged (p : Placement α) (factor : Nat) : Placement α :=
  let larger (v : Vec2 α) : Vec2 α := v.map (· * Scalar.ofNat factor)
  { p with rect := ⟨larger p.rect.uv, larger p.rect.size⟩ }

namespace Atlas

/-- The atlas of no fragments. -/
def empty : Atlas α := ⟨.fill 16 16 .transparent, [], 1, 1⟩

/-- The fragments with the pixels that they need and the corners of their boxes in a packing. -/
def slots (fragments : List (ImageFragment α)) (p : Packing) :
    List (ImageFragment α × Footprint α × (Nat × Nat)) :=
  fragments.zipIdx.map fun (f, i) => (f, Footprint.of f, p.corner i)

/-- The fragments, copied to their places on an image. -/
def compose? (width height : Nat) (slots : List (ImageFragment α × Footprint α × (Nat × Nat))) :
    Option Image :=
  slots.foldlM
    (fun canvas (f, p, corner) =>
      (p.rowCopies f.image.width width corner).foldlM (Image.copyRow? f.image) canvas)
    (.fill width height .transparent)

/-- The atlas of fragments before anything is drawn on it. -/
def plain? (fragments : List (ImageFragment α)) (p : Packing) : Option (Atlas α) := do
  let image ← compose? (max p.width 1) (max p.height 1) (slots fragments p)
  return {
    image
    placements := (slots fragments p).map fun (f, footprint, corner) =>
      footprint.placedAt corner f.crop
    efficiency := p.efficiency (fragments.map fun f => (Footprint.of f).pixelSize) }

/-- The boxes that the fragments fill. -/
def regions (fragments : List (ImageFragment α)) (p : Packing) : List PixelBox :=
  (slots fragments p).map fun (_, footprint, corner) =>
    ⟨corner.1, corner.2, footprint.box.width, footprint.box.height⟩

/-- The atlas with lines around what its regions show. -/
def outlined (a : Atlas α) (regions : List PixelBox) (o : Outline α) : Atlas α where
  image := o.draw a.image regions
  placements := a.placements.map fun p => p.enlarged o.factor
  efficiency := a.efficiency
  factor := o.factor

/-- The atlas of fragments, if all of their rows can be copied. -/
def ofFragments? (fragments : List (ImageFragment α)) (outline : Option (Outline α)) :
    Option (Atlas α) :=
  if fragments.isEmpty then some empty
  else do
    let p := pack α (fragments.map fun f => (Footprint.of f).pixelSize)
    let a ← plain? fragments p
    match outline with
    | none => return a
    | some o => return a.outlined (regions fragments p) o

/-- The atlas's image with its opacity multiplied. -/
def imageAt (a : Atlas α) (opacity : α) : Image :=
  let opacity := Scalar.clamp 0 1 opacity
  if opacity < 1 then a.image.map (Pixel.faded opacity) else a.image

end Atlas

end

end BlockModels
