import BlockModels.Catalog.Shape
import BlockModels.Condition.Evaluation
import BlockModels.Failure
import BlockModels.Mesh.Cube
import BlockModels.Placeholder.Interpolation

/-!
# Expanding a shape

The templates of a shape are decided one level of copying after the other. A template whose
condition holds for the block is a cube, or stands for the templates of the shape that it copies,
which make up part of the next level, or for the cubes of a block that is embedded in the entity
data, which is expanded by itself. In the end the cubes that have only a place and a size are
merged; they come first, then the other cubes in order, then those of embedded blocks.

Copies are bounded in two ways: a shape is not copied again on the way down from itself, and both
the chain of copied shapes and the nesting of embedded blocks have at most `maxDepth` links. What
goes beyond is left out with a note, or is a failure when the run is strict. The bounds are the
recursion: `expandLevels` descends on the links that a chain may still get, `expandNested` on the
levels of embedding that remain.
-/

namespace BlockModels

/-- How far copies may go, and whether going further ends the run. -/
structure ExpansionLimits where
  strict : Bool := false
  maxDepth : Nat := 8
  deriving Repr, DecidableEq, Inhabited

/-- A computation that may fail and takes notes. -/
abbrev Deciding := ExceptT Failure Noted

/-- What cannot be done: a failure when the run is strict, else a note and a value that stands in.
-/
def Deciding.refuse {β : Type} (limits : ExpansionLimits) (failure : Failure)
    (kind : DiagnosticKind) (message : String) (standIn : β) : Deciding β :=
  if limits.strict then throw failure
  else do
    liftM (Noted.error kind message)
    return standIn

/-- A computation that may fail, takes notes, and asks for shapes. -/
abbrev Expanding := StateT ShapeMemo Deciding

namespace Expanding

/-- A computation that does not ask for shapes. -/
def ofDeciding {β : Type} (x : Deciding β) : Expanding β := fun memo => do
  let v ← x
  return (v, memo)

/-- A computation that only takes notes. -/
def ofNoted {β : Type} (x : Noted β) : Expanding β := ofDeciding (liftM x)

/-- A computation that only asks for shapes and takes notes. -/
def ofLookup {β : Type} (x : ShapeLookup β) : Expanding β := fun memo => liftM (x memo)

end Expanding

/-- A template in the work of a level, with the shapes through which it was copied, the first shape
first. -/
structure Entry (α : Type) where
  template : Template α
  chain : List String

/-- What a template comes to. -/
inductive Decision (α : Type) where
  /-- Nothing: it is not shown, or what it stands for is not there. -/
  | dropped
  | cube (cube : Cube α)
  /-- The templates of the shape that it copies. -/
  | copies (entries : List (Entry α))
  /-- The cubes of a block that was found in the entity data of the host, moved. -/
  | embeds (host : String) (found : Block) (offset : Vec3 α)

/-- What a level yields: cubes, cubes of embedded blocks, and the templates of the next level. -/
structure Yield (α : Type) where
  cubes : List (Cube α) := []
  embedded : List (Cube α) := []
  next : List (Entry α) := []

namespace Yield

variable {α : Type}

/-- Two yields, the first before the second in every part. -/
def append (a b : Yield α) : Yield α :=
  ⟨a.cubes ++ b.cubes, a.embedded ++ b.embedded, a.next ++ b.next⟩

end Yield

/-- A template with a path for its faces, unless it has one. -/
def Template.withSpecialPath {α : Type} (path : Option String) (t : Template α) : Template α :=
  { t with texturePath := t.texturePath.or path }

/-- The names of a chain. -/
def chainText (chain : List String) : String := String.intercalate " -> " chain

/-- A text holds the opening mark of a placeholder. -/
def hasPlaceholder : List Char → Bool
  | '$' :: '\x7b' :: _ => true
  | _ :: rest => hasPlaceholder rest
  | [] => false

/-- A state of a template: a text with placeholders is filled in, and is a number if the result
reads as one. -/
def fillState (b : Block) (arrays : Option Placeholder.Arrays) : StateValue → Noted StateValue
  | .str s =>
    if hasPlaceholder s.toList then do
      let text ← Placeholder.interpolate b s arrays
      match Condition.int64? text.toList with
      | some i => return .int i
      | none => return .str text
    else pure (.str s)
  | v => pure v

/-- The block with the states that a template puts in place of its own; none if there are none. -/
def overrideBlock {α : Type} (b : Block) (t : Template α) : Noted (Option Block) :=
  match t.blockStates with
  | none => pure none
  | some states => do
    let filled ← states.entries.mapM fun e => do
      let v ← fillState b t.arrays e.2
      return (e.1, v)
    return some (b.withStates (Table.ofList filled))

/-- A text of a template, filled in if it has placeholders. -/
def fillText (b : Block) (arrays : Option Placeholder.Arrays) :
    Option String → Noted (Option String)
  | none => pure none
  | some s =>
    if hasPlaceholder s.toList then do
      let text ← Placeholder.interpolate b s arrays
      return some text
    else pure (some s)

/-- The texts of a template that name textures and tints, filled in. -/
def fillTemplate {α : Type} (b : Block) (t : Template α) : Noted (Template α) := do
  let terrainTexture ← fillText b t.arrays t.terrainTexture
  let texturePath ← fillText b t.arrays t.texturePath
  let tint ← fillText b t.arrays t.tint
  return { t with terrainTexture, texturePath, tint }

/-- A condition that is not there holds. -/
def conditionHolds (b : Block) : Option String → Noted Bool
  | none => pure true
  | some expression => Condition.evaluate b expression

/-- A block in the entity data: its name behind a namespace, or the block itself. Either way the
name that is found may have a namespace of its own, which it loses too. -/
def embeddedBlock? (j : Json) : Option Block :=
  let found : Option Block := match j with
    | .str name => some { name := stripNamespace name }
    | .obj _ => Block.ofJson? j
    | _ => none
  found.map fun b => { b with name := b.shortName }

section

variable {α : Type} [Scalar α] (c : Catalog α) (limits : ExpansionLimits)

/-- The templates that take the place of one that copies the shape `target`. -/
def copyTemplates (b : Block) (parent : Template α) (target : String) (chain : List String) :
    Deciding (List (Entry α)) :=
  let (shape, path) := splitSpecial target
  if chain.contains shape then
    Deciding.refuse limits (.selfCopy shape) .selfCopy
      ("Shape " ++ chain.getLastD shape ++ " copies " ++ shape ++
        " which is already being expanded (" ++ chainText chain ++ "), skipping") []
  else if limits.maxDepth < chain.length then
    Deciding.refuse limits (.copyDepth shape limits.maxDepth) .copyDepth
      ("Copy chain " ++ chainText chain ++ " too deep for " ++ b.name ++ ", skipping") []
  else
    match c.geometry.get? shape with
    | none => do
      liftM (Noted.warn .missingShape
        ("Copied shape " ++ shape ++ " has no geometry (block " ++ b.name ++ ")"))
      return []
    | some templates =>
      return templates.map fun t =>
        ⟨(t.withSpecialPath path).inherit parent, chain ++ [shape]⟩

/-- The block that a directive names in the entity data, unless it is one that is never shown. -/
def findEmbedded (context : Block) (directive : String) : Noted (Option Block) :=
  let lost (reason : String) : Noted (Option Block) := do
    Noted.warn .copyBlock
      ("copy_block " ++ Text.quote directive ++ " on " ++ context.name ++ " " ++ reason)
    return none
  match Text.behind? "entity.".toList directive.toList with
  | none => lost "is not entity.<property>"
  | some property =>
    match (context.entityValue? (String.ofList property)).bind embeddedBlock? with
    | none => lost "found no block"
    | some found => return if c.isIgnored found.name then none else some found

/-- Decides one template. -/
def decideEntry (b : Block) (shape : String) (entry : Entry α) : Deciding (Decision α) := do
  let override ← liftM (overrideBlock b entry.template)
  let context := override.getD b
  let holds ← liftM (conditionHolds context entry.template.condition)
  if !holds then return .dropped
  let t ← liftM (fillTemplate context entry.template)
  match t.copy with
  | some target =>
    let entries ← copyTemplates c limits b { t with copy := none } target entry.chain
    return .copies entries
  | none =>
    match t.copyBlock with
    | some directive =>
      let found ← liftM (findEmbedded c context directive)
      return match found with
        | some found => .embeds context.name found (t.translate.getD (.fill 0))
        | none => .dropped
    | none => return .cube (Cube.ofTemplate t override shape)

/-- An embedded block as it is expanded: marked, and without entity data if those of its name are
not to be looked at. -/
def Catalog.embedded (found : Block) : Block :=
  { found with
    entity := if c.ignoredEntities.contains found.name then none else found.entity
    copied := true }

/-- A cube of an embedded block in its host: moved, and with the block to which it belongs. -/
def Cube.embeddedIn (copied : Block) (offset : Vec3 α) (cube : Cube α) : Cube α :=
  { cube.translated offset with block := cube.block.or (some copied) }

/-- No block is embedded any deeper. -/
def refuseEmbedding {β : Type} (host : String) (found : Block) (standIn : β) : Deciding β :=
  Deciding.refuse limits (.copyDepth found.name limits.maxDepth) .copyDepth
    ("copy_block nesting too deep at " ++ found.name ++ " inside " ++ host ++ ", skipping")
    standIn

/-- Expands a block by itself: a block and its shape to cubes. -/
abbrev BlockExpander (α : Type) := Block → String → Expanding (List (Cube α))

/-- The yield of one template. Without an expander the nesting of blocks is too deep. -/
def expandEntry (expander : Option (BlockExpander α)) (b : Block) (shape : String)
    (entry : Entry α) : Expanding (Yield α) := do
  match ← Expanding.ofDeciding (decideEntry c limits b shape entry) with
  | .dropped => return {}
  | .cube cube => return { cubes := [cube] }
  | .copies next => return { next }
  | .embeds host found offset =>
    match expander with
    | none => Expanding.ofDeciding (refuseEmbedding limits host found {})
    | some expand => do
      let copied := c.embedded found
      let shape ← Expanding.ofLookup (c.resolveShape copied.name)
      let cubes ← expand copied shape
      return { embedded := cubes.map (Cube.embeddedIn copied offset) }

/-- Decides the templates of one level in order. -/
def expandLevel (expander : Option (BlockExpander α)) (b : Block) (shape : String) :
    List (Entry α) → Expanding (Yield α)
  | [] => return {}
  | entry :: rest => do
    let first ← expandEntry c limits expander b shape entry
    let others ← expandLevel expander b shape rest
    return first.append others

/-- Decides a level and all levels below it. The number is that of links that the chains of the
level may still get. -/
def expandLevels (expander : Option (BlockExpander α)) (b : Block) (shape : String) :
    Nat → List (Entry α) → Expanding (Yield α)
  | 0, entries => expandLevel c limits expander b shape entries
  | links + 1, entries => do
    let here ← expandLevel c limits expander b shape entries
    if here.next.isEmpty then return here
    let below ← expandLevels expander b shape links here.next
    return { here with next := [] }.append below

/-- The cubes in the order in which a block lists them: those with only a place and a size, merged,
before the others. -/
def assemble (shape : String) (y : Yield α) : List (Cube α) :=
  let merged := mergeCuboids ((y.cubes.filter Cube.isBare).map Cube.toCuboid)
  merged.map (Cube.ofCuboid shape) ++ y.cubes.filter (fun cube => !cube.isBare) ++ y.embedded

/-- The geometry of a shape, or that of the default shape with a note; none if there is neither. -/
def shapeGeometry (b : Block) (shape : String) : Noted (Option (String × List (Template α))) :=
  match c.geometry.get? shape with
  | some templates => pure (some (shape, templates))
  | none => do
    Noted.warn .missingShape ("No geometry for shape " ++ shape ++ " (block " ++ b.name ++
      "), using " ++ defaultShape)
    return (c.geometry.get? defaultShape).map fun templates => (defaultShape, templates)

/-- The templates with which the work on a shape begins. -/
def rootEntries (shape : String) (path : Option String) (templates : List (Template α)) :
    List (Entry α) :=
  templates.map fun t => ⟨t.withSpecialPath path, [shape]⟩

/-- Expands a block, with an expander for the blocks embedded in it. -/
def expandWith (expander : Option (BlockExpander α)) : BlockExpander α := fun b shapeId => do
  let (shape, path) := splitSpecial shapeId
  match ← Expanding.ofNoted (shapeGeometry c b shape) with
  | none => return []
  | some (shape, templates) =>
    let entries := rootEntries shape path templates
    let y ← expandLevels c limits expander b shape limits.maxDepth entries
    return assemble shape y

/-- Expands a block into which others may be nested the given number of levels deep. -/
def expandNested : Nat → BlockExpander α
  | 0 => expandWith c limits none
  | levels + 1 => expandWith c limits (some (expandNested levels))

/-- The cubes of a block with a shape. -/
def expand : BlockExpander α := expandNested c limits limits.maxDepth

end

/-- Runs an expansion; the shapes asked for are forgotten. -/
def Expanding.runFresh {β : Type} (x : Expanding β) : Noted (Except Failure β) := do
  match ← (x.run .empty).run with
  | .ok (v, _) => return .ok v
  | .error e => return .error e

end BlockModels
