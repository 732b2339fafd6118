import BlockModels.Space.Rect
import BlockModels.Space.Rotation

/-!
# Bones

A bone is the geometry of one block of the palette: cubes whose faces name their texture by its
position in a list of references. A bone is built once, around the origin, and copied to each place
at which the block stands (`Bone.place`).

A face whose texture was trimmed to its opaque part takes the cube along (`BoneCube.crop`): the two
axes on which the texture lies shrink with it, the third stays.
-/

namespace BlockModels

/-- What is drawn on a face: a texture from the list of references, turned over or not. -/
structure FaceUse where
  texture : Nat
  flipU : Bool
  flipV : Bool
  deriving Repr, DecidableEq, Inhabited

/-- A cube of a bone, with the faces that are drawn. -/
structure BoneCube (α : Type) where
  origin : Vec3 α
  size : Vec3 α
  rotation : Option (Rotation α) := none
  /-- The rotations around the cube's own, outermost first. -/
  extraRotations : List (Rotation α) := []
  /-- The faces in the order in which tables list them. -/
  faces : List (Face × FaceUse)
  deriving Inhabited

/-- All cubes of a block, with its own rotation. -/
structure Bone (α : Type) where
  blockName : String
  cubes : List (BoneCube α) := []
  rotation : Option (Vec3 α) := none
  pivot : Vec3 α
  scale : α
  deriving Inhabited

section

variable {α : Type} [Scalar α]

/-- A rectangle of the atlas as a face is to read it: an axis that is turned over begins at the far
edge and runs back. -/
def FaceUse.orient (f : FaceUse) (r : Rect α) : Rect α where
  uv := ⟨if f.flipU then r.uv.x + r.size.x else r.uv.x,
    if f.flipV then r.uv.y + r.size.y else r.uv.y⟩
  size := ⟨if f.flipU then -r.size.x else r.size.x, if f.flipV then -r.size.y else r.size.y⟩

/-- An axis of space along which an axis of a texture runs, forward or back. -/
structure TextureAxis where
  axis : Axis
  forward : Bool
  deriving Repr, DecidableEq

/-- How the two axes of a texture lie on a face. -/
def Face.textureAxes : Face → TextureAxis × TextureAxis
  | .west => (⟨.z, true⟩, ⟨.y, false⟩)
  | .east => (⟨.z, false⟩, ⟨.y, false⟩)
  | .north => (⟨.x, false⟩, ⟨.y, false⟩)
  | .south => (⟨.x, true⟩, ⟨.y, false⟩)
  | .up => (⟨.x, true⟩, ⟨.z, true⟩)
  | .down => (⟨.x, true⟩, ⟨.z, false⟩)

/-- The texture does not lie on the axis along which a face looks. -/
theorem Face.axis_ne_textureAxes (f : Face) :
    f.axis ≠ f.textureAxes.1.axis ∧ f.axis ≠ f.textureAxes.2.axis := by
  cases f <;> decide

theorem Face.textureAxes_ne (f : Face) : f.textureAxes.1.axis ≠ f.textureAxes.2.axis := by
  cases f <;> decide

/-- The texture lies on every other axis. -/
theorem Face.textureAxes_eq_or_eq {f : Face} {axis : Axis} (h : f.axis ≠ axis) :
    f.textureAxes.1.axis = axis ∨ f.textureAxes.2.axis = axis := by
  revert h
  cases f <;> cases axis <;> decide

namespace BoneCube

/-- A texture lies turned over on a face, more than it does by itself: on vertical faces it always
does. -/
def turned (f : Face) (flip : Bool) : Bool := flip != f.isVertical

/-- Moves the cube and everything about which it turns. -/
def translated (c : BoneCube α) (offset : Vec3 α) : BoneCube α :=
  { c with
    origin := c.origin + offset
    rotation := c.rotation.map (·.translated offset)
    extraRotations := c.extraRotations.map (·.translated offset) }

/-- The part of the cube that begins at a fraction of its extent along an axis and takes another
fraction of it. -/
def cropAlong (c : BoneCube α) (t : TextureAxis) (start length : α) : BoneCube α :=
  let full := c.size.get t.axis
  let skipped := if t.forward then start else 1 - start - length
  { c with
    origin := c.origin.set t.axis (c.origin.get t.axis + skipped * full)
    size := c.size.set t.axis (length * full) }

/-- What a face is used for, if it is drawn. -/
def face? (c : BoneCube α) (f : Face) : Option FaceUse := c.faces.lookup f

/-- The part of the cube that lies behind a part of the texture on a face. -/
def crop (c : BoneCube α) (f : Face) (part : Crop α) : BoneCube α :=
  match c.face? f with
  | none => c
  | some use =>
    let (u, v) := f.textureAxes
    let u := { u with forward := u.forward != turned f use.flipU }
    let v := { v with forward := v.forward != turned f use.flipV }
    (c.cropAlong u part.x part.w).cropAlong v part.y part.h

end BoneCube

namespace Bone

/-- The bone of a block without geometry. -/
def empty (blockName : String) (scale : α) : Bone α where
  blockName
  pivot := Rotation.defaultPivot.scale scale
  scale

/-- The width of a block. -/
def blockWidth : α := Scalar.ofNat 16

/-- The bone's copy for the block at a position, counted in blocks. -/
def place (b : Bone α) (position : Vec3 Int) : Bone α :=
  let offset := position.map fun p => Scalar.ofInt p * blockWidth * b.scale
  { b with cubes := b.cubes.map (·.translated offset), pivot := b.pivot + offset }

end Bone

end

end BlockModels
