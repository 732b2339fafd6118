import BlockModels.Bounds
import BlockModels.Catalog.Basic
import BlockModels.Template.Reader

/-!
# Reading rule tables

The forms of the tables in data. A table that is missing is empty, but none may be `null`.
-/

namespace BlockModels

open Json (Fields)

/-- A pattern in its written form. -/
def NamePattern.ofJson? (j : Json) : Option NamePattern := j.string?.bind NamePattern.ofString?

/-- A list of patterns, each with what holds for the names that match. -/
def patternRules? {β : Type} (read : Json → Option β) : Json → Option (List (NamePattern × β)) :=
  Json.list? (Json.pair? NamePattern.ofJson? read)

/-- State, value, contribution. -/
def StateTable.ofJson? {β : Type} (read : Json → Option β) : Json → Option (StateTable β) :=
  Json.table? (Json.table? read)

/-- Reads the rules of rotation. -/
def RotationRules.ofJson? (j : Json) : Option (RotationRules Float) := do
  let read := StateTable.ofJson? Vec3.ofJson?
  let f ← j.fields? ["global", "by_shape", "by_name", "by_pattern"]
  return {
    everywhere := ← f.withDefault? "global" read .empty
    byShape := ← f.withDefault? "by_shape" (Json.table? read) .empty
    byName := ← f.withDefault? "by_name" (Json.table? read) .empty
    byPattern := ← f.withDefault? "by_pattern" (patternRules? read) [] }

/-- Reads a table of variants. -/
def VariantTable.ofJson? (j : Json) : Option VariantTable := do
  let f ← j.fields? ["exclusive_add", "states"]
  return {
    additive := ← f.withDefault? "exclusive_add" Json.bool? false
    states := ← f.withDefault? "states" (StateTable.ofJson? Json.int64?) .empty }

/-- Reads the rules of variants. -/
def VariantRules.ofJson? (j : Json) : Option VariantRules := do
  let f ← j.fields? ["eigenvariants", "global", "by_shape", "by_name", "by_pattern"]
  let read := VariantTable.ofJson?
  return {
    eigenvariants := ← f.withDefault? "eigenvariants" (Json.table? Json.int64?) .empty
    everywhere := ← f.withDefault? "global" read {}
    byShape := ← f.withDefault? "by_shape" (Json.table? read) .empty
    byName := ← f.withDefault? "by_name" (Json.table? read) .empty
    byPattern := ← f.withDefault? "by_pattern" (patternRules? read) [] }

/-- Reads a face table: a key, or keys by face. -/
def FaceTable.ofJson? : Json → Option FaceTable
  | .str key => some (.all key)
  | j => (j.table? Json.string?).map .perFace

/-- A member of an object that may be given once at most. -/
def uniqueMember? (names : List String) (members : List (String × Json)) : Option (Option Json) :=
  match members.filter fun m => names.contains m.1 with
  | [] => some none
  | [m] => some (some m.2)
  | _ => none

/-- Reads one variant of a texture: a path, or an object with a path and perhaps a tint. -/
def TerrainVariant.ofJson? : Json → Option TerrainVariant
  | .str path => some { path }
  | .obj members => do
    let path ← (← uniqueMember? ["path"] members).bind Json.string?
    let tintColor ← match ← uniqueMember? ["tint_color"] members with
      | none => some none
      | some j => j.orNull? Json.string?
    return { path, tintColor }
  | _ => none

mutual

/-- Reads the variants of a texture: the first that fits of one variant, a list of variants, and an
object that wraps either under `textures`. -/
def terrainVariants? : Json → Option (List TerrainVariant)
  | .arr items => items.mapM TerrainVariant.ofJson?
  | .obj members =>
    match TerrainVariant.ofJson? (.obj members) with
    | some v => some [v]
    | none => wrappedVariants? members (members.countP (·.1 == "textures"))
  | j => (TerrainVariant.ofJson? j).map ([·])

/-- The variants under `textures`, if that member is given once. -/
def wrappedVariants? : List (String × Json) → Nat → Option (List TerrainVariant)
  | [], _ => none
  | (k, j) :: rest, count =>
    if k = "textures" then if count = 1 then terrainVariants? j else none
    else wrappedVariants? rest count

end

/-- Reads a tint: a colour, or an object with a colour and perhaps a flag, under either of its two
names. -/
def TintRule.ofJson? : Json → Option TintRule
  | .str color => some { color }
  | .obj members => do
    let color ← (← uniqueMember? ["color"] members).bind Json.string?
    let likePng ← match ← uniqueMember? ["tint_like_png", "tintLikePng"] members with
      | none => some false
      | some j => j.bool?
    return { color, likePng }
  | _ => none

namespace Catalog

/-- The tables in the order in which they are declared. -/
def tableNames : List String :=
  ["shapes_by_name", "shapes_by_pattern", "shape_geometry", "rotations", "variants",
    "terrain_textures", "block_textures", "carried_textures", "use_carried_textures",
    "block_name_remaps", "tints", "transparency", "flipbook_sizes", "ignored_blocks",
    "ignored_block_entities"]

/-- Reads all rule tables from data. -/
def ofJson? (j : Json) : Option (Catalog Float) := do
  let f ← j.fields? tableNames
  let faces := Json.table? FaceTable.ofJson?
  return {
    shapesByName := ← f.withDefault? "shapes_by_name" (Json.table? Json.string?) .empty
    shapesByPattern := ← f.withDefault? "shapes_by_pattern" (patternRules? Json.string?) []
    geometry := ← f.withDefault? "shape_geometry"
      (Json.table? (Json.list? Template.ofJson?)) .empty
    rotations := ← f.withDefault? "rotations" RotationRules.ofJson? {}
    variants := ← f.withDefault? "variants" VariantRules.ofJson? {}
    terrain :=
      ← f.withDefault? "terrain_textures" (Json.table? (Json.whole? terrainVariants?)) .empty
    faceTables := ← f.withDefault? "block_textures" faces .empty
    carriedTables := ← f.withDefault? "carried_textures" faces .empty
    alwaysCarried := ← f.withDefault? "use_carried_textures" Json.nameSet? .empty
    remaps := ← f.withDefault? "block_name_remaps" (Json.table? Json.string?) .empty
    tints := ← f.withDefault? "tints" (Json.table? (Json.whole? TintRule.ofJson?)) .empty
    transparency := ← f.withDefault? "transparency" (Json.table? Json.float?) .empty
    flipbookSizes := ← f.withDefault? "flipbook_sizes"
      (Json.table? (Json.nat? maxUnsigned32)) .empty
    ignoredBlocks := ← f.withDefault? "ignored_blocks" Json.nameSet? .empty
    ignoredEntities := ← f.withDefault? "ignored_block_entities" Json.nameSet? .empty }

end Catalog

end BlockModels
