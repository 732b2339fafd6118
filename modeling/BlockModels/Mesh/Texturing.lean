import BlockModels.Catalog.Face
import BlockModels.Catalog.Shape
import BlockModels.Catalog.States
import BlockModels.Mesh.Bone
import BlockModels.Mesh.Projection
import BlockModels.Text.Quoted
import BlockModels.Texture.Registry

/-!
# From cubes to bones

Each face that is drawn gets a reference to its texture, which is put into a registry that all bones
share, and the cube gets its place in the bone: moved as its template says, and scaled.

A cube's texture variant is the block's own fixed one, unless the cube ignores it, then the one that
the cube names, then the one that the states of the block choose.
-/

namespace BlockModels

/-- A computation that collects texture references and takes notes. -/
abbrev Referencing (α : Type) := StateT (Registry (TextureReference α)) Noted

section

variable {α : Type} [Scalar α] (c : Catalog α)

namespace Cube

/-- The texture variant of a cube of a block. -/
def textureVariant (cube : Cube α) (b : Block) : Int64 :=
  let fixed := if cube.look.ignoreEigenvariant.getD false then none
    else c.variants.eigenvariants.get? b.shortName
  match fixed.or cube.look.variant with
  | some variant => variant
  | none => c.variants.resolve b (splitSpecial cube.shape).1 true

/-- Where the texture of a face is looked up. -/
def faceSource (cube : Cube α) (b : Block) (variant : Int64) (f : Face) : TextureSource :=
  match cube.look.texturePath, cube.look.terrainTexture with
  | some path, _ => .path path
  | none, some key => .terrainKey b.shortName key variant
  | none, none => .block b.shortName (cube.faceSelector f) variant

/-- The colour that a cube asks for; one that cannot be read is left out. -/
def tint (cube : Cube α) : Noted (Option (Vec3 α)) :=
  match cube.look.tint with
  | none => pure none
  | some color =>
    match parseColor? color with
    | some rgb => pure (some rgb)
    | none => do
      Noted.warn .invalidTint
        ("Invalid cube tint " ++ Text.quote color ++ " in shape " ++ cube.shape)
      return none

/-- A set of faces has the face. -/
def flips (faces : Option NameSet) (f : Face) : Bool := faces.any fun s => s.contains f.name

/-- The references of a cube's faces. Only the texture of a face that is alone can be trimmed. -/
def faceReferences (cube : Cube α) (b : Block) : Noted (List (Face × TextureReference α)) := do
  let rects ← cube.faceRects
  let tint ← cube.tint
  let croppable := cube.look.croppable.getD false && rects.length == 1
  let variant := cube.textureVariant c b
  return rects.map fun (f, rect) =>
    (f, { rect, source := cube.faceSource b variant f, tint, croppable })

/-- How a face uses a texture: the textures of vertical faces lie turned over. -/
def faceUse (cube : Cube α) (f : Face) (texture : Nat) : FaceUse where
  texture
  flipU := flips cube.look.flipHorizontal f != f.isVertical
  flipV := flips cube.look.flipVertical f != f.isVertical

/-- The cube in a bone, with given faces. -/
def placed (cube : Cube α) (scale : α) (faces : List (Face × FaceUse)) : BoneCube α :=
  let offset := cube.look.translate.getD (.fill 0)
  let place (r : Rotation α) := (r.translated offset).scaled scale
  { origin := (cube.pos + offset).scale scale
    size := cube.size.scale scale
    rotation := cube.rotation.map place
    extraRotations := cube.extraRotations.map place
    faces }

/-- The cube in the bone of a block, its references put into the registry. -/
def toBoneCube (cube : Cube α) (host : Block) (scale : α) : Referencing α (BoneCube α) := do
  let references ← liftM (cube.faceReferences c (cube.block.getD host))
  let positions ← modifyGet fun r => r.insertAll (references.map (·.2))
  let faces := (references.map (·.1)).zip positions
  return cube.placed scale (faces.map fun (f, i) => (f, cube.faceUse f i))

end Cube

/-- The bone of a block with a shape and the cubes of that shape. -/
def buildBone (b : Block) (shape : String) (cubes : List (Cube α)) (scale : α) :
    Referencing α (Bone α) := do
  let cubes ← cubes.mapM fun cube => cube.toBoneCube c b scale
  return {
    blockName := b.shortName
    cubes
    rotation := c.rotations.resolve b (splitSpecial shape).1
    pivot := Rotation.defaultPivot.scale scale
    scale }

end

end BlockModels
