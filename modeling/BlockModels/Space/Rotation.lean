import BlockModels.Space.Direction

/-!
# Rotations

Three angles about the axes of a pivot point. Moving and scaling a rotated thing moves and scales
the pivot; the angles stay.
-/

namespace BlockModels

/-- Angles in degrees and the point about which they turn. -/
structure Rotation (α : Type) where
  rot : Vec3 α
  pivot : Vec3 α
  deriving Repr, DecidableEq, Inhabited

namespace Rotation

variable {α : Type} [Scalar α]

/-- The centre of a block, about which things turn unless they say otherwise. -/
def defaultPivot : Vec3 α := .fill (Scalar.ofNat 8)

/-- The rotation of a thing that was moved. -/
def translated (r : Rotation α) (offset : Vec3 α) : Rotation α :=
  { r with pivot := r.pivot + offset }

/-- The rotation of a thing that was scaled. -/
def scaled (r : Rotation α) (s : α) : Rotation α :=
  { r with pivot := r.pivot.scale s }

end Rotation

end BlockModels
