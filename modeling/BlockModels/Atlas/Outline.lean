import BlockModels.Image.Basic
import BlockModels.Json.Reader
import BlockModels.Space.Vector
import BlockModels.Template.Reader

/-!
# Outlines

Lines around whatever can be seen in the regions of an image. To make the lines thinner than a
pixel the image is enlarged first; a line is one pixel wide on the enlarged image and runs along
those sides of each enlarged pixel beyond which nothing can be seen, and over its corners.

The lines are drawn over the image position by position (`Outline.strokes`). A position in the list
twice is drawn over twice.
-/

namespace BlockModels

/-- How lines are drawn. -/
structure Outline (α : Type) where
  /-- In pixels of the image before it is enlarged. -/
  width : α
  color : Vec3 UInt8 := .fill 0
  opacity : α
  /-- What has less opacity cannot be seen. -/
  threshold : UInt8 := 1
  deriving Inhabited

/-- An image, every pixel of which has become a square of pixels. -/
def Image.enlarged (img : Image) (factor : Nat) : Image :=
  if factor ≤ 1 then img
  else .ofFn (img.width * factor) (img.height * factor) fun x y => img.get (x / factor) (y / factor)

/-- A direction to one of the eight pixels around a pixel, or to the pixel itself. -/
structure Step where
  right : Int
  down : Int
  deriving Repr, DecidableEq

namespace Outline

variable {α : Type} [Scalar α]

/-- Black lines of a quarter pixel. -/
def standard : Outline α := { width := Scalar.ofNat 1 / Scalar.ofNat 4, opacity := 1 }

/-- How much an image is enlarged at most. -/
def maxFactor : Nat := 16

/-- How much an image is enlarged, so that a pixel is about as wide as a line is to be. -/
def factor (o : Outline α) : Nat :=
  if 0 < o.width ∧ o.width < 1 then
    Scalar.clampNat maxFactor (Scalar.clamp 1 (Scalar.ofNat maxFactor) (Scalar.round (1 / o.width)))
  else 1

/-- Something can be seen at a position of a region. -/
def shows (o : Outline α) (img : Image) (region : PixelBox) (x y : Int) : Bool :=
  decide (0 ≤ x) && decide (0 ≤ y) && region.contains x.toNat y.toNat
    && decide (o.threshold ≤ img.alpha x.toNat y.toNat)

/-- The boxes in the square of an enlarged pixel over which a line runs if nothing can be seen in a
direction: the four sides and the four corners. -/
def edges (factor x y : Nat) : List (Step × PixelBox) :=
  let left := x * factor
  let top := y * factor
  let right := left + factor - 1
  let bottom := top + factor - 1
  [(⟨-1, 0⟩, ⟨left, top, 1, factor⟩), (⟨1, 0⟩, ⟨right, top, 1, factor⟩),
    (⟨0, -1⟩, ⟨left, top, factor, 1⟩), (⟨0, 1⟩, ⟨left, bottom, factor, 1⟩),
    (⟨-1, -1⟩, ⟨left, top, 1, 1⟩), (⟨1, -1⟩, ⟨right, top, 1, 1⟩),
    (⟨-1, 1⟩, ⟨left, bottom, 1, 1⟩), (⟨1, 1⟩, ⟨right, bottom, 1, 1⟩)]

/-- The positions over which lines run around one pixel. -/
def pixelStrokes (o : Outline α) (img : Image) (region : PixelBox) (x y : Nat) :
    List (Nat × Nat) :=
  if o.shows img region x y then
    let bare := (edges o.factor x y).filter fun e =>
      !o.shows img region (x + e.1.right) (y + e.1.down)
    bare.flatMap fun e => e.2.positions
  else []

/-- The positions over which lines run, in the order in which they are drawn. -/
def strokes (o : Outline α) (img : Image) (regions : List PixelBox) : List (Nat × Nat) :=
  regions.flatMap fun region => region.positions.flatMap fun p => o.pixelStrokes img region p.1 p.2

/-- A pixel with the colour of the line laid over it. -/
def onto (o : Outline α) (p : Pixel) : Pixel :=
  let opacity := Scalar.clamp 0 1 o.opacity
  let mixed (color under : UInt8) : UInt8 :=
    nearestChannel (channel color * opacity + channel under * (1 - opacity))
  let alpha : α := channel p.a / Scalar.ofNat 255
  { r := mixed o.color.x p.r
    g := mixed o.color.y p.g
    b := mixed o.color.z p.b
    a := nearestChannel ((opacity + alpha * (1 - opacity)) * Scalar.ofNat 255) }

/-- An image enlarged, with lines around what can be seen in its regions. -/
def draw (o : Outline α) (img : Image) (regions : List PixelBox) : Image :=
  (o.strokes img regions).foldl (fun canvas p => canvas.modify p.1 p.2 o.onto)
    (img.enlarged o.factor)

/-- Reads an outline from data; what is missing is as usual. -/
def ofJson? (j : Json) : Option (Outline Float) := do
  let f ← j.fields? ["width", "color", "opacity", "alpha_threshold"]
  let channel? (j : Json) : Option UInt8 := (j.nat? 255).map UInt8.ofNat
  let usual : Outline Float := .standard
  return {
    width := ← f.withDefault? "width" Json.float? usual.width
    color := ← f.withDefault? "color" (fun j => (j.list? channel?).bind Vec3.ofList?) usual.color
    opacity := ← f.withDefault? "opacity" Json.float? usual.opacity
    threshold := ← f.withDefault? "alpha_threshold" channel? usual.threshold }

end Outline

end BlockModels
