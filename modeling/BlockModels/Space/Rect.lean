import BlockModels.Space.Vector

/-!
# Rectangles

A rectangle on a texture or on an image is a corner and a size. A `Crop` names a part of a rectangle
by fractions of its size, so the same crop can be taken of a face's rectangle and of the cube that
carries the face.
-/

namespace BlockModels

/-- A rectangle: where it begins and how large it is. -/
structure Rect (α : Type) where
  uv : Vec2 α
  size : Vec2 α
  deriving Repr, DecidableEq, Inhabited

/-- A part of a rectangle, in fractions of its width and height. -/
structure Crop (α : Type) where
  x : α
  y : α
  w : α
  h : α
  deriving Repr, DecidableEq, Inhabited

namespace Crop

variable {α : Type} [Scalar α]

/-- The crop that takes everything. -/
def whole : Crop α := ⟨0, 0, 1, 1⟩

instance : BEq (Crop α) := ⟨fun c d => c.x == d.x && c.y == d.y && c.w == d.w && c.h == d.h⟩

/-- The part of a rectangle that a crop takes. -/
def of (c : Crop α) (r : Rect α) : Rect α :=
  ⟨⟨r.uv.x + c.x * r.size.x, r.uv.y + c.y * r.size.y⟩, ⟨c.w * r.size.x, c.h * r.size.y⟩⟩

end Crop

/-- A part of an atlas, and what part of a rectangle it holds if it does not hold all of it. -/
structure Placement (α : Type) where
  rect : Rect α
  crop : Option (Crop α) := none
  deriving Repr, DecidableEq, Inhabited

end BlockModels
