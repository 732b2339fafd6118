import BlockModels.Mesh.Cuboid
import BlockModels.Template.Basic

/-!
# Cubes

A cube is a template that has been decided: it has a place, a size and its rotations. What the
template says about the faces is kept with it. A cube that belongs to the block at hand carries no
block; one whose states were replaced, or that belongs to an embedded block, carries its own.
-/

namespace BlockModels

/-- A template without any field. -/
def Template.isBlank {α : Type} (t : Template α) : Bool :=
  t.pos.isNone && t.size.isNone && t.textures.isNone && t.uv.isNone && t.uvSizes.isNone
    && t.boxUv.isNone && t.boxUvSize.isNone && t.textureSize.isNone && t.blockStates.isNone
    && t.condition.isNone && t.copy.isNone && t.copyBlock.isNone && t.rot.isNone
    && t.pivot.isNone && t.translate.isNone && t.tint.isNone && t.terrainTexture.isNone
    && t.texturePath.isNone && t.variant.isNone && t.ignoreEigenvariant.isNone
    && t.croppable.isNone && t.arrays.isNone && t.flipHorizontal.isNone
    && t.flipVertical.isNone && t.extraRotations.isEmpty

theorem Template.isBlank_iff {α : Type} {t : Template α} : t.isBlank = true ↔ t = {} := by
  obtain ⟨⟩ := t
  simp only [isBlank, Bool.and_eq_true, Option.isNone_iff_eq_none, List.isEmpty_iff,
    Template.mk.injEq, and_assoc]

/-- A cube of a block. -/
structure Cube (α : Type) where
  pos : Vec3 α
  size : Vec3 α
  rotation : Option (Rotation α) := none
  /-- The rotations around the cube's own, outermost first. -/
  extraRotations : List (Rotation α) := []
  /-- What the template says about the faces. -/
  look : Template α := {}
  /-- The block to which the faces belong, if it is not the one at hand. -/
  block : Option Block := none
  /-- The shape of that block. -/
  shape : String
  deriving Inhabited

namespace Cube

variable {α : Type} [Scalar α]

/-- The cube that a template describes: at the origin and as large as a block unless it says
otherwise. The fields that are decided hereby are taken out of the template. -/
def ofTemplate (t : Template α) (block : Option Block) (shape : String) : Cube α where
  pos := t.pos.getD (.fill 0)
  size := t.size.getD (.fill (Scalar.ofNat 16))
  rotation := t.rotation
  extraRotations := t.extraRotations
  look := { t with
    pos := none, size := none, rot := none, pivot := none, condition := none, copy := none,
    copyBlock := none, blockStates := none, arrays := none, extraRotations := [] }
  block
  shape

/-- Nothing but a place and a size, which is not zero on any axis. -/
def isBare (c : Cube α) : Bool :=
  c.look.isBlank && c.block.isNone && c.rotation.isNone && c.extraRotations.isEmpty
    && Axis.all.all fun axis => !(c.size.get axis == 0)

/-- A cuboid as a cube with no more to say. -/
def ofCuboid (shape : String) (c : Cuboid α) : Cube α := { pos := c.pos, size := c.size, shape }

/-- The cube as a cuboid. -/
def toCuboid (c : Cube α) : Cuboid α := ⟨c.pos, c.size⟩

/-- Moves the cube and everything about which it turns. -/
def translated (c : Cube α) (offset : Vec3 α) : Cube α :=
  { c with
    pos := c.pos + offset
    rotation := c.rotation.map (·.translated offset)
    extraRotations := c.extraRotations.map (·.translated offset) }

end Cube

end BlockModels
