import BlockModels.Diagnostic
import BlockModels.Mesh.Cube
import BlockModels.Space.Rect

/-!
# Faces on the texture

Which faces of a cube are drawn, and which rectangle of the texture lies on each. A rectangle is
given in parts of the texture's width and height.

Without further ado a face shows what one sees when the texture, sixteen by sixteen, is projected
through the block from the side on which the face looks (`Cube.projected`). A cube can also be
unfolded on the texture as a box (`boxRect`), or say for each face where its part begins and how
large it is.
-/

namespace BlockModels

/-- The entry of a face in a table: its own, for a side face that of `side`, or that of `*`. -/
def faceValue? {β : Type} (t : Option (Table β)) (f : Face) : Option β :=
  t.bind fun t =>
    (t.get? f.name).or ((if f.isSide then t.get? "side" else none).or (t.get? "*"))

/-- What a face reads from when it is not to be drawn. -/
def hiddenFace : String := "none"

/-- The rectangle of a face when a box is unfolded: down and up in a strip on top, the four sides
in a strip below. -/
def boxRect {α : Type} [Scalar α] (anchor : Vec2 α) (box : Vec3 α) (f : Face) : Rect α :=
  let u := anchor.x
  let v := anchor.y
  let w := box.x
  let h := box.y
  let d := box.z
  match f with
  | .east => ⟨⟨u, v + d⟩, ⟨d, h⟩⟩
  | .north => ⟨⟨u + d, v + d⟩, ⟨w, h⟩⟩
  | .west => ⟨⟨u + d + w, v + d⟩, ⟨d, h⟩⟩
  | .south => ⟨⟨u + Scalar.ofNat 2 * d + w, v + d⟩, ⟨w, h⟩⟩
  | .up => ⟨⟨u + d, v⟩, ⟨w, d⟩⟩
  | .down => ⟨⟨u + d + w, v⟩, ⟨w, d⟩⟩

/-- The rectangle that a cuboid covers when it is looked at from the side of a face. -/
def projectedRect {α : Type} [Scalar α] (c : Cuboid α) (f : Face) : Rect α :=
  let whole : α := Scalar.ofNat 16
  let (x, y, z) := (c.pos.x, c.pos.y, c.pos.z)
  let (w, h, d) := (c.size.x, c.size.y, c.size.z)
  match f with
  | .west => ⟨⟨z, whole - y - h⟩, ⟨d, h⟩⟩
  | .east => ⟨⟨whole - z - d, whole - y - h⟩, ⟨d, h⟩⟩
  | .north => ⟨⟨whole - x - w, whole - y - h⟩, ⟨w, h⟩⟩
  | .south => ⟨⟨x, whole - y - h⟩, ⟨w, h⟩⟩
  | .up => ⟨⟨x, z⟩, ⟨w, d⟩⟩
  | .down => ⟨⟨x, whole - z - d⟩, ⟨w, d⟩⟩

namespace Cube

variable {α : Type} [Scalar α]

/-- The name under which a face is looked up in the block's face table. -/
def faceSelector (c : Cube α) (f : Face) : String :=
  (faceValue? c.look.textures f).getD f.name

/-- The faces that are drawn, in the order in which faces are visited. Of a cube without extent on
some axis it is one face. -/
def visibleFaces (c : Cube α) : List Face :=
  let candidates := match Axis.all.find? fun axis => c.size.get axis == 0 with
    | some axis => [axis.flatFace]
    | none => Face.all
  candidates.filter fun f => c.faceSelector f != hiddenFace

/-- The size of the texture that rectangles are counted on, if it is not given. -/
def defaultTextureSize : Vec2 α := .fill (Scalar.ofNat 16)

/-- A size of a texture is finite and positive. -/
def isTextureSize (s : Vec2 α) : Bool :=
  s.toList.all fun a => Scalar.isFinite a && decide (0 < a)

/-- A pair of numbers in a message. -/
def pairText (v : Vec2 α) : String :=
  "[" ++ Scalar.text .debug v.x ++ ", " ++ Scalar.text .debug v.y ++ "]"

/-- The size of the texture that rectangles are counted on. -/
def textureSize (c : Cube α) : Noted (Vec2 α) :=
  match c.look.textureSize with
  | none => pure defaultTextureSize
  | some s =>
    if isTextureSize s then pure s
    else do
      Noted.warn .invalidTextureSize ("Shape " ++ c.shape ++ " has texture_size " ++ pairText s ++
        "; using " ++ pairText (defaultTextureSize : Vec2 α))
      return defaultTextureSize

/-- The rectangle of a face in the units of the texture's size. -/
def faceRect (c : Cube α) (f : Face) : Rect α :=
  match c.look.boxUv with
  | some anchor => boxRect anchor (c.look.boxUvSize.getD c.size) f
  | none =>
    let projected := projectedRect c.toCuboid f
    ⟨(faceValue? c.look.uv f).getD projected.uv,
      (faceValue? c.look.uvSizes f).getD projected.size⟩

/-- A rectangle in parts of a size. -/
def normalized (s : Vec2 α) (r : Rect α) : Rect α :=
  ⟨r.uv.zipWith (· / ·) s, r.size.zipWith (· / ·) s⟩

/-- The rectangles of the faces that are drawn, in the order in which tables list faces. -/
def faceRects (c : Cube α) : Noted (List (Face × Rect α)) := do
  let s ← c.textureSize
  let visible := c.visibleFaces
  return (Face.listed.filter visible.contains).map fun f => (f, normalized s (c.faceRect f))

end Cube

end BlockModels
