import BlockModels.Block
import BlockModels.Space.Rotation

/-!
# Cube templates

A shape is a list of cube templates. A template says as much about a cube as it wants to; what it
leaves open is filled in later, from the template that copied it (`Template.inherit`) and in the end
by defaults. Positions and sizes count sixteenths of a block.

`Template.inherit` folds a copying template into a copied one. Five laws combine the fields: what
the copied template does not declare is taken over; tables are joined name by name; moves add up;
a face that both flip is not flipped; and a rotation is never replaced but goes around the other,
so the outer rotations are kept in a list, outermost first.
-/

namespace BlockModels

/-- What a shape says about one of its cubes. -/
structure Template (α : Type) where
  pos : Option (Vec3 α) := none
  size : Option (Vec3 α) := none
  /-- Face, `side` or `*`, to the name of a face in the block's face table, or `none`. -/
  textures : Option (Table String) := none
  /-- Where a face's part of the texture begins. -/
  uv : Option (Table (Vec2 α)) := none
  uvSizes : Option (Table (Vec2 α)) := none
  /-- Where the unfolded box begins on the texture. -/
  boxUv : Option (Vec2 α) := none
  /-- The size of the unfolded box, if it is not the cube's. -/
  boxUvSize : Option (Vec3 α) := none
  /-- The size of the texture that the coordinates are counted on. -/
  textureSize : Option (Vec2 α) := none
  /-- States that replace those of the block for this cube. -/
  blockStates : Option (Table StateValue) := none
  condition : Option String := none
  /-- The shape whose cubes stand in for this one. -/
  copy : Option String := none
  /-- The property of the entity data that names a block to embed. -/
  copyBlock : Option String := none
  rot : Option (Vec3 α) := none
  pivot : Option (Vec3 α) := none
  translate : Option (Vec3 α) := none
  tint : Option String := none
  terrainTexture : Option String := none
  texturePath : Option String := none
  variant : Option Int64 := none
  ignoreEigenvariant : Option Bool := none
  /-- The texture may be trimmed to its opaque part. -/
  croppable : Option Bool := none
  arrays : Option (Table (List Json)) := none
  flipHorizontal : Option NameSet := none
  flipVertical : Option NameSet := none
  /-- Rotations around the cube's own, outermost first. -/
  extraRotations : List (Rotation α) := []
  deriving Inhabited

namespace Template

variable {α : Type}

/-- The entries of a table, and those of another under the names it does not have. -/
def joinTables {β : Type} (own parent : Option (Table β)) : Option (Table β) :=
  match own, parent with
  | some t, some u => some (t.orElse u)
  | none, parent => parent
  | own, none => own

/-- The faces that one of two templates flips and the other does not; no set stands for none. -/
def joinFlips (own parent : Option NameSet) : Option NameSet :=
  match parent with
  | none => own
  | some u =>
    let s := NameSet.symmDiff (own.getD .empty) u
    if s.isEmpty then none else some s

/-- The sum of two moves, or the only one. -/
def joinMoves [Scalar α] (own parent : Option (Vec3 α)) : Option (Vec3 α) :=
  match own, parent with
  | some v, some w => some (v + w)
  | none, parent => parent
  | own, none => own

/-- The rotation that a template declares; the pivot is the middle of the block unless it says
otherwise. -/
def rotation [Scalar α] (t : Template α) : Option (Rotation α) :=
  t.rot.map fun rot => ⟨rot, t.pivot.getD Rotation.defaultPivot⟩

/-- The outer rotations after a copy: the parent's outer ones, its own if the copied template has
one too, and the copied template's outer ones. -/
def joinRotations [Scalar α] (own parent : Template α) : List (Rotation α) :=
  parent.extraRotations
    ++ (if own.rot.isSome then parent.rotation.toList else [])
    ++ own.extraRotations

/-- The copied template with what its parent says. The shape to copy is the copied template's
alone. -/
def inherit [Scalar α] (own parent : Template α) : Template α where
  pos := own.pos.or parent.pos
  size := own.size.or parent.size
  textures := joinTables own.textures parent.textures
  uv := joinTables own.uv parent.uv
  uvSizes := joinTables own.uvSizes parent.uvSizes
  boxUv := own.boxUv.or parent.boxUv
  boxUvSize := own.boxUvSize.or parent.boxUvSize
  textureSize := own.textureSize.or parent.textureSize
  blockStates := joinTables own.blockStates parent.blockStates
  condition := own.condition.or parent.condition
  copy := own.copy
  copyBlock := own.copyBlock.or parent.copyBlock
  rot := own.rot.or parent.rot
  pivot := if own.rot.isNone && parent.rot.isSome then own.pivot.or parent.pivot else own.pivot
  translate := joinMoves own.translate parent.translate
  tint := own.tint.or parent.tint
  terrainTexture := own.terrainTexture.or parent.terrainTexture
  texturePath := own.texturePath.or parent.texturePath
  variant := own.variant.or parent.variant
  ignoreEigenvariant := own.ignoreEigenvariant.or parent.ignoreEigenvariant
  croppable := own.croppable.or parent.croppable
  arrays := joinTables own.arrays parent.arrays
  flipHorizontal := joinFlips own.flipHorizontal parent.flipHorizontal
  flipVertical := joinFlips own.flipVertical parent.flipVertical
  extraRotations := joinRotations own parent

end Template

end BlockModels
