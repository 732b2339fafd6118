import BlockModels.Template.Basic

/-!
# Reading cube templates

The fields of a template in data, every one of which may be missing or `null`.
-/

namespace BlockModels

/-- Three numbers. -/
def Vec3.ofJson? (j : Json) : Option (Vec3 Float) :=
  (j.list? Json.float?).bind Vec3.ofList?

/-- Two numbers. -/
def Vec2.ofJson? (j : Json) : Option (Vec2 Float) :=
  (j.list? Json.float?).bind Vec2.ofList?

/-- A rotation: the angles have to be there, the pivot need not. -/
def Rotation.ofJson? (j : Json) : Option (Rotation Float) := do
  let f ← j.fields? ["rot", "pivot"]
  let rot ← f.required? "rot" Vec3.ofJson?
  let pivot ← f.withDefault? "pivot" Vec3.ofJson? Rotation.defaultPivot
  return ⟨rot, pivot⟩

namespace Template

/-- The fields of a template in the order in which they are declared. -/
def fieldNames : List String :=
  ["pos", "size", "textures", "uv", "uv_sizes", "box_uv", "box_uv_size", "texture_size",
    "block_states", "if", "copy", "copy_block", "rot", "pivot", "translate", "tint",
    "terrain_texture", "texture_path", "variant", "ignore_eigenvariant", "croppable", "arrays",
    "flip_textures_horizontally", "flip_textures_vertically"]

/-- Reads a template from data. -/
def ofJson? (j : Json) : Option (Template Float) := do
  let f ← j.fields? fieldNames
  return {
    pos := ← f.optional? "pos" Vec3.ofJson?
    size := ← f.optional? "size" Vec3.ofJson?
    textures := ← f.optional? "textures" (Json.table? Json.string?)
    uv := ← f.optional? "uv" (Json.table? Vec2.ofJson?)
    uvSizes := ← f.optional? "uv_sizes" (Json.table? Vec2.ofJson?)
    boxUv := ← f.optional? "box_uv" Vec2.ofJson?
    boxUvSize := ← f.optional? "box_uv_size" Vec3.ofJson?
    textureSize := ← f.optional? "texture_size" Vec2.ofJson?
    blockStates := ← f.optional? "block_states" (Json.table? StateValue.ofJson?)
    condition := ← f.optional? "if" Json.string?
    copy := ← f.optional? "copy" Json.string?
    copyBlock := ← f.optional? "copy_block" Json.string?
    rot := ← f.optional? "rot" Vec3.ofJson?
    pivot := ← f.optional? "pivot" Vec3.ofJson?
    translate := ← f.optional? "translate" Vec3.ofJson?
    tint := ← f.optional? "tint" Json.string?
    terrainTexture := ← f.optional? "terrain_texture" Json.string?
    texturePath := ← f.optional? "texture_path" Json.string?
    variant := ← f.optional? "variant" Json.int64?
    ignoreEigenvariant := ← f.optional? "ignore_eigenvariant" Json.bool?
    croppable := ← f.optional? "croppable" Json.bool?
    arrays := ← f.optional? "arrays" (Json.table? (Json.list? Json.canonical?))
    flipHorizontal := ← f.optional? "flip_textures_horizontally" Json.nameSet?
    flipVertical := ← f.optional? "flip_textures_vertically" Json.nameSet? }

end Template

end BlockModels
