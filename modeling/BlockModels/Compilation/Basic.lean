import BlockModels.Atlas.Basic
import BlockModels.Compilation.Settings
import BlockModels.Mesh.Texturing
import BlockModels.Texture.Loading
import BlockModels.Texture.Resolution

/-!
# Compiling a palette

A palette of blocks becomes a list of bones, one for each block, and an atlas with the textures of
all their faces. Three tables lead from a face to its place on the atlas: the face names a
reference, the reference a fragment (`Compilation.fragmentOf`), and each fragment has one
placement.

When the atlas is made, a face that was trimmed to the visible part of its texture takes its cube
along (`BoneCube.trimmed`). Only cubes with a single face are trimmed.
-/

namespace BlockModels

/-- What a run makes. -/
structure Compilation (α : Type) where
  /-- One for each block of the palette. -/
  bones : List (Bone α)
  /-- What faces show, each once. -/
  references : List (TextureReference α)
  /-- What references were resolved to, each once. -/
  fragments : List (TextureFragment α)
  /-- The fragment of each reference, by its position. -/
  fragmentOf : List Nat
  /-- The place of each reference on the atlas. -/
  placements : List (Placement α)
  atlas : Atlas α
  /-- The images of the atlas, with the opacity of each. -/
  images : List (α × Image)
  deriving Inhabited

/-- A computation that collects references, asks for shapes, takes notes and may fail. -/
abbrev Compiling (α : Type) := StateT (Registry (TextureReference α)) Expanding

section

variable {α : Type} [Scalar α] (c : Catalog α) (settings : Settings α)

/-- A computation that only collects references and takes notes. -/
def Compiling.ofReferencing {β : Type} (x : Referencing α β) : Compiling α β :=
  fun registry => Expanding.ofNoted (x.run registry)

/-- The block as it is expanded: without entity data if those of its name are not to be looked at.
-/
def Catalog.admitted (b : Block) : Block :=
  if c.ignoredEntities.contains b.shortName then { b with entity := none } else b

/-- The bone of a block of the palette. -/
def compileBlock (b : Block) : Compiling α (Bone α) := do
  if c.isIgnored b.name then return .empty b.shortName settings.scale
  let b := c.admitted b
  let shape ← liftM (Expanding.ofLookup (c.resolveShape b.name))
  let cubes ← liftM (expand c settings.limits b shape)
  Compiling.ofReferencing (buildBone c b shape cubes settings.scale)

/-- The bones of a palette and the references of their faces. -/
def compileBones (palette : List Block) :
    ExceptT Failure Noted (List (Bone α) × List (TextureReference α)) := do
  let ((bones, registry), _) ← ((palette.mapM (compileBlock c settings)).run .empty).run .empty
  return (bones, registry.toList)

/-- The fragments of references, each once, and the position of each reference's fragment. -/
def resolveTextures (references : List (TextureReference α)) :
    Noted (List Nat × List (TextureFragment α)) := do
  let resolved ← references.mapM c.resolveTexture
  let (positions, registry) := (Registry.empty : Registry (TextureFragment α)).insertAll resolved
  return (positions, registry.toList)

/-- No place at all. -/
def Placement.nowhere : Placement α := ⟨⟨.fill 0, .fill 0⟩, none⟩

/-- The crop of a cube with a single face, if its texture was trimmed. -/
def BoneCube.crop? (cube : BoneCube α) (placements : List (Placement α)) :
    Option (Face × Crop α) :=
  match cube.faces with
  | [(f, use)] => (placements[use.texture]?).bind fun p => p.crop.map fun crop => (f, crop)
  | _ => none

/-- The cube behind the part of its texture that is left. -/
def BoneCube.trimmed (placements : List (Placement α)) (cube : BoneCube α) : BoneCube α :=
  match cube.crop? placements with
  | some (f, crop) => cube.crop f crop
  | none => cube

/-- The bone with every cube behind the part of its texture that is left. -/
def Bone.trimmed (placements : List (Placement α)) (b : Bone α) : Bone α :=
  { b with cubes := b.cubes.map (·.trimmed placements) }

/-- The place of each reference, by the places of the fragments. -/
def placementsOf (fragmentOf : List Nat) (places : List (Placement α)) : List (Placement α) :=
  fragmentOf.map fun i => (places[i]?).getD .nowhere

/-- Gives bones the textures that their faces refer to: resolved, loaded, and put on an atlas. -/
def Compilation.ofBones (find : FileLookup) (bones : List (Bone α))
    (references : List (TextureReference α)) : ExceptT Failure Noted (Compilation α) := do
  let (fragmentOf, fragments) ← liftM (resolveTextures c references)
  let images ← liftM (c.loadFragments find fragments)
  let atlas ← (Atlas.ofFragments? images settings.outline).elim (throw .rowOutside) pure
  let placements := placementsOf fragmentOf atlas.placements
  return {
    bones := bones.map (·.trimmed placements)
    references
    fragments
    fragmentOf
    placements
    atlas
    images := settings.opacities.map fun opacity => (opacity, atlas.imageAt opacity) }

/-- Compiles a palette, with a way to find the files of images. -/
def compile (find : FileLookup) (palette : List Block) :
    ExceptT Failure Noted (Compilation α) := do
  let (bones, references) ← compileBones c settings palette
  Compilation.ofBones c settings find bones references

end

/-- The place of a face on the atlas, turned over as the face wants it. -/
def Compilation.faceRect? {α : Type} [Scalar α] (r : Compilation α) (f : FaceUse) :
    Option (Rect α) :=
  (r.placements[f.texture]?).map fun p => f.orient p.rect

end BlockModels
