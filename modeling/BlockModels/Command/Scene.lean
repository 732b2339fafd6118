import BlockModels.Bounds
import BlockModels.Block
import BlockModels.Json.Parser
import BlockModels.Space.Vector

/-!
# Scenes

The document that a run is about: a palette of blocks, and the places at which blocks of the palette
stand.
-/

namespace BlockModels.Command

/-- A block at a place. -/
structure PlacedBlock where
  position : Vec3 Int
  /-- Its number in the palette. -/
  palette : Nat
  deriving Inhabited

/-- A palette and the blocks that stand somewhere. -/
structure Scene where
  palette : List Block
  blocks : List PlacedBlock := []
  deriving Inhabited

/-- Reads a block at a place. -/
def PlacedBlock.ofJson? (j : Json) : Option PlacedBlock := do
  let f ← j.fields? ["x", "y", "z", "palette"]
  let coordinate? := Json.int? minSigned32 maxSigned32
  return {
    position := ⟨← f.required? "x" coordinate?, ← f.required? "y" coordinate?,
      ← f.required? "z" coordinate?⟩
    palette := ← f.required? "palette" (Json.nat? maxUnsigned64) }

/-- Reads a scene. -/
def Scene.ofJson? (j : Json) : Option Scene := do
  let f ← j.fields? ["palette", "blocks"]
  return {
    palette := ← f.required? "palette" (Json.list? Block.ofJson?)
    blocks := ← f.withDefault? "blocks" (Json.list? PlacedBlock.ofJson?) [] }

end BlockModels.Command
