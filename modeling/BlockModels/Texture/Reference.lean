import BlockModels.Json.Printer
import BlockModels.Space.Rect

/-!
# Textures of faces, asked for and found

A `TextureReference` says what a face shows: a rectangle, and where its texture is to be looked
up. A `TextureFragment` is the answer: an image by its path, and what is to be done with it. Both
are told apart by a text that names every field (`Keyed.key`), so numbers count by their digits
and `0.0` differs from `-0.0`.
-/

namespace BlockModels

/-- Where the texture of a face is looked up. -/
inductive TextureSource where
  /-- In the face table of a block. -/
  | block (blockName face : String) (variant : Int64)
  /-- Under a texture key, for a block. -/
  | terrainKey (blockName key : String) (variant : Int64)
  /-- An image itself. -/
  | path (path : String)
  deriving Repr, DecidableEq, Inhabited

/-- What a face shows. -/
structure TextureReference (α : Type) where
  /-- In parts of the texture's width and height. -/
  rect : Rect α
  source : TextureSource
  /-- A colour that the cube asks for. -/
  tint : Option (Vec3 α) := none
  croppable : Bool := false
  deriving Inhabited

/-- A colour by which an image is multiplied. -/
structure Tint (α : Type) where
  rgb : Vec3 α
  /-- Images in the older format are tinted like the others. -/
  likePng : Bool := false
  deriving Inhabited

/-- An image and what is to be done with it. -/
structure TextureFragment (α : Type) where
  /-- With or without the ending of the file's name. -/
  path : String
  tint : Option (Tint α) := none
  opacity : α
  /-- In parts of the image's width and height. -/
  rect : Rect α
  croppable : Bool := false
  deriving Inhabited

/-- Things that are told apart by a text. -/
class Keyed (β : Type) where
  key : β → String

/-! ## Texts of records -/

/-- The text of a record: a JSON object of fields with given texts. -/
def recordText (fields : List (String × String)) : String :=
  "\x7b" ++ String.intercalate "," (fields.map fun f => Json.quoted f.1 ++ ":" ++ f.2) ++ "\x7d"

/-- The text of a truth value. -/
def boolText (b : Bool) : String := if b then "true" else "false"

/-- The text of numbers in order. -/
def numbersText {α : Type} [Scalar α] (xs : List α) : String :=
  "[" ++ String.intercalate "," (xs.map Scalar.json) ++ "]"

/-- A field that is left out when there is nothing to say. -/
def optionalField {β : Type} (name : String) (text : β → String) :
    Option β → List (String × String)
  | none => []
  | some b => [(name, text b)]

/-- The text of a source. -/
def TextureSource.key : TextureSource → String
  | .block blockName face variant =>
    recordText [("kind", Json.quoted "block"), ("block_name", Json.quoted blockName),
      ("face", Json.quoted face), ("variant", toString variant.toInt)]
  | .terrainKey blockName key variant =>
    recordText [("kind", Json.quoted "terrain_key"), ("block_name", Json.quoted blockName),
      ("key", Json.quoted key), ("variant", toString variant.toInt)]
  | .path image => recordText [("kind", Json.quoted "path"), ("path", Json.quoted image)]

section

variable {α : Type} [Scalar α]

/-- The text of a reference. -/
def TextureReference.key (r : TextureReference α) : String :=
  recordText <|
    [("uv", numbersText r.rect.uv.toList), ("uv_size", numbersText r.rect.size.toList),
      ("source", r.source.key)]
    ++ optionalField "tint" (fun rgb => numbersText rgb.toList) r.tint
    ++ [("croppable", boolText r.croppable)]

/-- The text of a tint. -/
def Tint.key (t : Tint α) : String :=
  recordText [("rgb", numbersText t.rgb.toList), ("tint_like_png", boolText t.likePng)]

/-- The text of a fragment. -/
def TextureFragment.key (f : TextureFragment α) : String :=
  recordText <|
    [("path", Json.quoted f.path)]
    ++ optionalField "tint" Tint.key f.tint
    ++ [("opacity", Scalar.json f.opacity), ("uv", numbersText f.rect.uv.toList),
      ("uv_size", numbersText f.rect.size.toList), ("croppable", boolText f.croppable)]

instance : Keyed (TextureReference α) := ⟨TextureReference.key⟩

instance : Keyed (TextureFragment α) := ⟨TextureFragment.key⟩

end

end BlockModels
