import BlockModels.Catalog.Bundle
import BlockModels.Command.Arguments
import BlockModels.Command.BlockText
import BlockModels.Command.Geometry
import BlockModels.Command.Scene
import BlockModels.Command.World
import BlockModels.Text.Quoted

/-!
# Running a command

What a command does in a world. A command that fails has done everything up to then.
-/

namespace BlockModels.Command

/-- Why a command ends early. -/
inductive Trouble where
  /-- The arguments are not those of a command. -/
  | usage
  /-- A file cannot be used, or the run has no result. -/
  | failure (cause : Failure)
  /-- Something in an argument is wrong, in words. -/
  | argument (message : String)
  deriving Inhabited

/-- A command under way, which may end early. -/
abbrev Running (m : Type → Type) := ExceptT Trouble m

section

variable {m : Type → Type} [Monad m] (w : World m)

/-- Prints a line. -/
def print (line : String) : Running m Unit := ExceptT.lift (w.print line)

/-- Goes on if there is a result. -/
def ofExcept {β : Type} : Except Failure β → Running m β
  | .ok b => pure b
  | .error cause => throw (.failure cause)

/-- Goes on if there is a value in a document. -/
def ofData {β : Type} (b : Option β) : Running m β := ofExcept (b.elim (.error .malformedData) .ok)

/-- Goes on if something was made or written. -/
def needWritten (done : m Bool) : Running m Unit := do
  if !(← ExceptT.lift done) then throw (.failure .unreadableFile)

/-- The text of the file that a path leads to. -/
def readFile (path : String) : Running m String := do
  let found ← ExceptT.lift (w.place path)
  ofExcept ((found.bind Place.text?).elim (.error .unreadableFile) .ok)

/-- Loads the rules that a path leads to. -/
def loadRules (path : String) : Running m (Catalog Float) := do
  print w ("Loading rules from " ++ Text.quote path ++ "...")
  ofExcept (Place.rules path (← ExceptT.lift (w.place path)))

/-- The settings of a run: those of a file, changed by what the arguments say. -/
def readSettings (r : CompileRequest) : Running m (Settings Float) := do
  let s ← match r.config with
    | none => pure Settings.standard
    | some path => do ofData ((Json.parse? (← readFile w path)).bind Settings.ofJson?)
  return { s with
    scale := r.scale.getD s.scale
    outline := (r.outline.map fun width => { Outline.standard with width }).or s.outline
    limits := { s.limits with strict := r.strict || s.limits.strict } }

/-- Says what a run made. -/
def report (r : Compilation Float) (notes : List Diagnostic) : Running m Unit := do
  let cubes := r.bones.foldl (fun n b => n + b.cubes.length) 0
  print w ("  Generated " ++ toString r.bones.length ++ " bones with " ++ toString cubes ++
    " cubes")
  print w ("  " ++ toString r.references.length ++ " texture references, " ++
    toString r.fragments.length ++ " unique fragments")
  print w ("  Atlas: " ++ toString r.atlas.image.width ++ "x" ++
    toString r.atlas.image.height ++ " (" ++
    Decimal.fixed 1 (r.atlas.efficiency * Float.ofNat 100) ++ "% filled)")
  print w ("  Diagnostics: " ++ toString (countSeverity notes .error) ++ " errors, " ++
    toString (countSeverity notes .warning) ++ " warnings, " ++
    toString (countSeverity notes .info) ++ " notes")

/-- The name of an image among so many. -/
def imageName (count i : Nat) : String :=
  if count = 1 then "atlas.png" else "atlas_" ++ toString i ++ ".png"

/-- Writes the images of a run. -/
def writeImages (directory : String) (images : List (Float × Image)) : Running m Unit :=
  images.zipIdx.forM fun ((opacity, image), i) => do
    let path := joinPath directory (imageName images.length i)
    needWritten (w.write path (.picture .png image))
    print w ("Wrote atlas at opacity " ++ Decimal.Layout.plain.write opacity ++ " to " ++
      Text.quote path)

/-- Compiles a scene and writes the images and the geometry. -/
def compileScene (r : CompileRequest) : Running m Unit := do
  let settings ← readSettings w r
  let c ← loadRules w r.rules
  print w ("  " ++ toString c.shapesByName.size ++ " named shapes, " ++
    toString c.shapesByPattern.length ++ " shape patterns, " ++
    toString c.geometry.size ++ " geometries")
  print w ("Loading palette from " ++ Text.quote r.input ++ "...")
  let scene ← ofData ((Json.parse? (← readFile w r.input)).bind Scene.ofJson?)
  print w ("  " ++ toString scene.palette.length ++ " palette entries, " ++
    toString scene.blocks.length ++ " placed blocks")
  let find ← ExceptT.lift (w.filesBelow r.textures)
  let run := (compile c settings find scene.palette).run
  let result ← ofExcept run.value
  report w result run.notes
  needWritten (w.makeFolder r.output)
  writeImages w r.output result.images
  let placed := scene.blocks.filterMap fun b =>
    (result.bones[b.palette]?).map fun bone => bone.place b.position
  let path := joinPath r.output "geometry.json"
  needWritten (w.write path (.text (geometryJson result placed run.notes).pretty))
  print w ("Wrote geometry to " ++ Text.quote path)

/-- Says which shapes blocks have. -/
def showBlocks (c : Catalog Float) (blocks : List String) : Running m Unit :=
  blocks.forM fun input => do
    match readBlock input with
    | .error message => throw (.argument message)
    | .ok b =>
      let shape := ((c.resolveShape b.name).run .empty).value.1
      print w ("  " ++ b.name ++ " -> " ++ shape ++ " (" ++
        toString ((c.geometry.get? shape).getD []).length ++ " cube templates)")

/-- Says what rules there are. -/
def showRules (r : InfoRequest) : Running m Unit := do
  let c ← loadRules w r.rules
  let count (name : String) (n : Nat) : Running m Unit :=
    print w ("  " ++ name ++ ": " ++ toString n)
  print w ""
  print w "Rule Bundle Info:"
  count "Named shapes" c.shapesByName.size
  count "Shape patterns" c.shapesByPattern.length
  count "Shape geometries" c.geometry.size
  count "Block face tables" c.faceTables.size
  count "Terrain textures" c.terrain.size
  count "Tints" c.tints.size
  count "Ignored blocks" c.ignoredBlocks.keys.length
  if !r.blocks.isEmpty then
    print w ""
    showBlocks w c r.blocks

/-- Runs the command that arguments ask for, and tells why it ended if it ended early. -/
def run (arguments : List String) : m (Option Trouble) := do
  let ended ← ExceptT.run <| match Request.ofArguments? arguments with
    | none => throw .usage
    | some (.compile r) => compileScene w r
    | some (.info r) => showRules w r
  match ended with
  | .ok () => return none
  | .error trouble => return some trouble

end

end BlockModels.Command
