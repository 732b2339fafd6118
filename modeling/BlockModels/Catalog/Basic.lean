import BlockModels.Pattern.Parser
import BlockModels.Template.Basic

/-!
# The catalog of rules

All tables that say what blocks look like: which shape a block has and what cubes a shape is made
of, how states turn a block and choose among its textures, which texture is on which face, and how
textures are tinted, made translucent and cut into frames. Names of blocks are without namespace.
-/

namespace BlockModels

/-- What a table with fallbacks by pattern lists for a name: the entry of the first pattern that
matches. -/
def findPattern {β : Type} (rules : List (NamePattern × β)) (name : String) : Option β :=
  (rules.find? fun r => r.1.isMatch name).map (·.2)

/-- State, value of the state, and what it contributes. -/
abbrev StateTable (β : Type) := Table (Table β)

/-- The contributions of the states that a block has, in the order of the states. -/
def StateTable.contributions {β : Type} (t : StateTable β) (b : Block) : List β :=
  t.entries.filterMap fun e => (b.state? e.1).bind fun v => e.2.get? v.text

/-- How states turn blocks. -/
structure RotationRules (α : Type) where
  everywhere : StateTable (Vec3 α) := .empty
  byShape : Table (StateTable (Vec3 α)) := .empty
  byName : Table (StateTable (Vec3 α)) := .empty
  byPattern : List (NamePattern × StateTable (Vec3 α)) := []
  deriving Inhabited

/-- How states choose a texture variant: the first contribution, or the sum of all. -/
structure VariantTable where
  additive : Bool := false
  states : StateTable Int64 := .empty
  deriving Inhabited

/-- Which texture variant a block has; a block's own fixed variant comes before everything else. -/
structure VariantRules where
  eigenvariants : Table Int64 := .empty
  everywhere : VariantTable := {}
  byShape : Table VariantTable := .empty
  byName : Table VariantTable := .empty
  byPattern : List (NamePattern × VariantTable) := []
  deriving Inhabited

/-- The texture keys of a block's faces: one for all, or one by face name with the fallbacks `side`
and `*`. -/
inductive FaceTable where
  | all (key : String)
  | perFace (keys : Table String)
  deriving Inhabited

/-- One image of a texture, with a tint of its own if it has one. -/
structure TerrainVariant where
  path : String
  tintColor : Option String := none
  deriving Repr, DecidableEq, Inhabited

/-- How a texture is tinted. -/
structure TintRule where
  color : String
  likePng : Bool := false
  deriving Repr, DecidableEq, Inhabited

/-- All rule tables. -/
structure Catalog (α : Type) where
  shapesByName : Table String := .empty
  shapesByPattern : List (NamePattern × String) := []
  geometry : Table (List (Template α)) := .empty
  rotations : RotationRules α := {}
  variants : VariantRules := {}
  /-- Texture key to its variants. -/
  terrain : Table (List TerrainVariant) := .empty
  faceTables : Table FaceTable := .empty
  /-- The face tables of blocks in the form in which they are carried. -/
  carriedTables : Table FaceTable := .empty
  /-- Blocks that always look as when they are carried. -/
  alwaysCarried : NameSet := .empty
  /-- Blocks that use the face table of another. -/
  remaps : Table String := .empty
  tints : Table TintRule := .empty
  /-- Opacities of blocks. -/
  transparency : Table α := .empty
  /-- Frame heights of images that hold several frames. -/
  flipbookSizes : Table Nat := .empty
  ignoredBlocks : NameSet := .empty
  ignoredEntities : NameSet := .empty
  deriving Inhabited

/-- The block has no geometry and is never embedded. -/
def Catalog.isIgnored {α : Type} (c : Catalog α) (name : String) : Bool :=
  c.ignoredBlocks.contains (stripNamespace name)

end BlockModels
