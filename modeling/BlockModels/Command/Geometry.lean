import BlockModels.Compilation.Basic

/-!
# The geometry document

The document that a run writes beside the images: bones, the bones at their places, where everything
is on the atlas, and what was noted. A field that has nothing to say is left out.
-/

namespace BlockModels.Command

/-- A list of values. -/
def listJson {β : Type} (f : β → Json) (xs : List β) : Json := .arr (xs.map f)

/-- A whole number. -/
def natJson (n : Nat) : Json := .int (Int.ofNat n)

/-- A triple of numbers. -/
def vec3Json (v : Vec3 Float) : Json := listJson .float v.toList

/-- A pair of numbers. -/
def vec2Json (v : Vec2 Float) : Json := listJson .float v.toList

/-- A field that may be left out. -/
def optionalMember {β : Type} (name : String) (f : β → Json) : Option β → List (String × Json)
  | none => []
  | some b => [(name, f b)]

/-- A rotation. -/
def rotationJson (r : Rotation Float) : Json :=
  .obj [("rot", vec3Json r.rot), ("pivot", vec3Json r.pivot)]

/-- What a face is used for. -/
def faceUseJson (f : FaceUse) : Json :=
  .obj [("texture_index", natJson f.texture), ("flip_u", .bool f.flipU), ("flip_v", .bool f.flipV)]

/-- A cube. -/
def cubeJson (c : BoneCube Float) : Json :=
  .obj <|
    [("origin", vec3Json c.origin), ("size", vec3Json c.size)]
    ++ optionalMember "rotation" rotationJson c.rotation
    ++ (if c.extraRotations.isEmpty then []
        else [("extra_rotations", listJson rotationJson c.extraRotations)])
    ++ [("faces", .obj (c.faces.map fun f => (f.1.name, faceUseJson f.2)))]

/-- A bone. -/
def boneJson (b : Bone Float) : Json :=
  .obj <|
    [("block_name", .str b.blockName), ("cubes", listJson cubeJson b.cubes)]
    ++ optionalMember "rotation" vec3Json b.rotation
    ++ [("pivot", vec3Json b.pivot), ("scale", .float b.scale)]

/-- A crop. -/
def cropJson (c : Crop Float) : Json :=
  .obj [("x", .float c.x), ("y", .float c.y), ("w", .float c.w), ("h", .float c.h)]

/-- A place on the atlas. -/
def placementJson (p : Placement Float) : Json :=
  .obj <|
    [("uv", vec2Json p.rect.uv), ("uv_size", vec2Json p.rect.size)]
    ++ optionalMember "crop" cropJson p.crop

/-- A note. -/
def diagnosticJson (d : Diagnostic) : Json :=
  .obj [("severity", .str d.severity.name), ("kind", .str d.kind.name), ("message", .str d.message)]

/-- The document of a run with the bones at their places. -/
def geometryJson (r : Compilation Float) (placed : List (Bone Float)) (notes : List Diagnostic) :
    Json :=
  .obj [("atlas_width", natJson r.atlas.image.width),
    ("atlas_height", natJson r.atlas.image.height),
    ("efficiency", .float r.atlas.efficiency),
    ("bones", listJson boneJson r.bones),
    ("placed", listJson boneJson placed),
    ("uv_table", listJson placementJson r.placements),
    ("diagnostics", listJson diagnosticJson notes)]

end BlockModels.Command
