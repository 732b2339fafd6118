import BlockModels.Catalog.Face
import BlockModels.Catalog.States
import BlockModels.Diagnostic
import BlockModels.Text.Cut
import BlockModels.Text.Quoted
import BlockModels.Texture.Reference

/-!
# Looking up textures

From a block's name through the face table to a texture key, and from there to one of the images
that are listed under it. Whatever is missing on the way is replaced by something that is there,
and each replacement leaves a note: a reference that is resolved without one was resolved as the
tables say.
-/

namespace BlockModels

/-- The image that stands for a texture that is not there. -/
def missingTexture : String := "textures/misc/missing_texture"

/-- Before the name of a face: the face of the block as it is carried. -/
def carriedMark : String := "carried_"

/-- The variant at an index that may be anything. -/
def variantAt? (variants : List TerrainVariant) (i : Int64) : Option TerrainVariant :=
  if 0 ≤ i.toInt then variants[i.toInt.toNat]? else none

section

variable {α : Type} [Scalar α] (c : Catalog α)

/-- The name under which a block's textures are listed. -/
def Catalog.textureOwner (blockName : String) : String :=
  let name := stripNamespace blockName
  (c.remaps.get? name).getD name

/-- The block always looks as when it is carried, itself or as the block whose textures it uses. -/
def Catalog.looksCarried (blockName : String) : Bool :=
  let name := stripNamespace blockName
  c.alwaysCarried.contains name || c.alwaysCarried.contains (c.textureOwner name)

/-- The face table of a block as it is carried: its own, or the general one. -/
def Catalog.carriedTable? (owner : String) : Option FaceTable :=
  (c.carriedTables.get? owner).or (c.faceTables.get? owner)

/-- The texture key of a face. Where the tables have nothing, the block's name stands for it. -/
def Catalog.textureKey (owner face : String) (carried : Bool) : Noted String := do
  let (table, face) := match Text.behind? carriedMark.toList face.toList with
    | some face => (c.carriedTable? owner, String.ofList face)
    | none => (if carried then c.carriedTable? owner else c.faceTables.get? owner, face)
  match table with
  | none =>
    Noted.warn .missingFace
      ("No face table for " ++ owner ++ ", using the block name as terrain key")
    return owner
  | some table =>
    match table.lookup face with
    | .found key => return key
    | .firstDeclared key =>
      Noted.warn .missingFace ("No " ++ face ++ " face for " ++ owner ++
        ", using first declared face (" ++ key ++ ")")
      return key
    | .missing =>
      Noted.warn .missingFace ("Empty face table for " ++ owner)
      return owner

/-- The tint of a texture key, by the text of a colour; one that cannot be read is none. -/
def keyTint (key color : String) (likePng : Bool) : Noted (Option (Tint α)) :=
  match parseColor? color with
  | some rgb => pure (some ⟨rgb, likePng⟩)
  | none => do
    Noted.warn .invalidTint ("Invalid tint " ++ Text.quote color ++ " for " ++ key)
    return none

/-- The variant at an index, or the first. Not to know the index is no loss where there is only one
variant. -/
def chooseVariant (key : String) (first : TerrainVariant) (rest : List TerrainVariant)
    (variant : Int64) : Noted TerrainVariant :=
  match variantAt? (first :: rest) variant with
  | some chosen => pure chosen
  | none => do
    if variant != unknownVariant || !rest.isEmpty then
      Noted.warn .unknownVariant ("Variant " ++ toString variant.toInt ++ " of " ++ key ++
        " not available (" ++ toString (rest.length + 1) ++ " declared), using the first")
    return first

/-- The tint of an image listed under a key: what the cube asked for, else the image's own, else
that of the key. -/
def Catalog.chooseTint (key : String) (chosen : TerrainVariant) (own : Option (Tint α)) :
    Noted (Option (Tint α)) := do
  if own.isSome then return own
  let fromImage ← match chosen.tintColor with
    | some color => keyTint key color false
    | none => pure none
  if fromImage.isSome then return fromImage
  match c.tints.get? key with
  | some rule => keyTint key rule.color rule.likePng
  | none => return none

/-- The image and the tint of a texture key. -/
def Catalog.resolveKey (key : String) (variant : Int64) (own : Option (Tint α)) :
    Noted (String × Option (Tint α)) := do
  match c.terrain.get? key with
  | none =>
    Noted.warn .missingTerrainTexture ("No terrain texture entry for " ++ key)
    return (missingTexture, own)
  | some [] =>
    Noted.warn .missingTerrainTexture ("Terrain texture " ++ key ++ " has no paths")
    return (missingTexture, own)
  | some (first :: rest) =>
    let chosen ← chooseVariant key first rest variant
    return (chosen.path, ← c.chooseTint key chosen own)

/-- The opacity of a block. -/
def Catalog.blockOpacity (owner : String) : α := (c.transparency.get? owner).getD 1

/-- The image of a reference. The rectangle is the reference's own. -/
def Catalog.resolveTexture (r : TextureReference α) : Noted (TextureFragment α) := do
  let own : Option (Tint α) := r.tint.map fun rgb => { rgb }
  let (path, tint, opacity) ← match r.source with
    | .path path => pure (path, own, 1)
    | .block blockName face variant => do
      let owner := c.textureOwner blockName
      let key ← c.textureKey owner face (c.looksCarried blockName)
      let (path, tint) ← c.resolveKey key variant own
      pure (path, tint, c.blockOpacity owner)
    | .terrainKey blockName key variant => do
      let (path, tint) ← c.resolveKey key variant own
      pure (path, tint, c.blockOpacity (c.textureOwner blockName))
  return { path, tint, opacity, rect := r.rect, croppable := r.croppable }

end

end BlockModels
