import BlockModels.Image.Basic
import BlockModels.Texture.Reference

/-!
# Image fragments

An image fragment is an image, tinted and faded as its texture asks, with the rectangle that the
texture shows, now counted in pixels. The rectangle need not begin or end at whole pixels.

A croppable fragment is reduced to what can be seen of it: its rectangle shrinks to the smallest
that holds all of its visible pixels (`visibleCrop`), and the crop says which part of the former
rectangle that is.
-/

namespace BlockModels

/-- The two formats of images. -/
inductive ImageFormat where
  | png
  /-- The older format, tinted by a rule of its own. -/
  | tga
  deriving Repr, DecidableEq, Inhabited

/-- An image that was found, and the format in which it was. -/
structure LoadedImage where
  image : Image
  format : ImageFormat
  deriving DecidableEq, Inhabited

/-- A part of an image. -/
structure ImageFragment (α : Type) where
  image : Image
  /-- In pixels. -/
  rect : Rect α
  crop : Option (Crop α) := none
  deriving Inhabited

section

variable {α : Type} [Scalar α]

/-- A colour multiplied by another. -/
def Pixel.tinted (rgb : Vec3 α) (p : Pixel) : Pixel where
  r := nearestChannel (channel p.r * rgb.x)
  g := nearestChannel (channel p.g * rgb.y)
  b := nearestChannel (channel p.b * rgb.z)
  a := p.a

/-- The rule of the older format: what can be seen at all becomes opaque and takes the tint, the
rest is left alone. -/
def Pixel.tintedOpaque (rgb : Vec3 α) (p : Pixel) : Pixel :=
  if p.a = 0 then p else { p.tinted rgb with a := 255 }

/-- A pixel with its opacity multiplied. -/
def Pixel.faded (opacity : α) (p : Pixel) : Pixel :=
  { p with a := nearestChannel (channel p.a * opacity) }

namespace Image

/-- The image in its tint. -/
def tinted (img : Image) (format : ImageFormat) (tint : Option (Tint α)) : Image :=
  match tint with
  | none => img
  | some t =>
    if format = .tga ∧ t.likePng = false then img.map (Pixel.tintedOpaque t.rgb)
    else img.map (Pixel.tinted t.rgb)

/-- The image with its opacity multiplied, if that makes it less. -/
def faded (img : Image) (opacity : α) : Image :=
  if 1 ≤ opacity then img else img.map (Pixel.faded opacity)

/-- The width and height of an image. -/
def extent (img : Image) : Vec2 α := ⟨Scalar.ofNat img.width, Scalar.ofNat img.height⟩

end Image

/-- Every number of a rectangle is finite. -/
def Rect.isFinite (r : Rect α) : Bool := (r.uv.toList ++ r.size.toList).all Scalar.isFinite

/-- The corner opposite to the one at which a rectangle begins. -/
def Rect.stop (r : Rect α) : Vec2 α := r.uv + r.size

/-- The pixels of an image that a rectangle touches. -/
def Image.touchedBox (img : Image) (r : Rect α) : PixelBox :=
  let first (limit : Nat) (a : α) : Nat := Scalar.clampNat limit (Scalar.max (Scalar.floor a) 0)
  let behind (limit : Nat) (a : α) : Nat := Scalar.clampNat limit (Scalar.max (Scalar.ceil a) 0)
  let x := first img.width r.uv.x
  let y := first img.height r.uv.y
  ⟨x, y, behind img.width r.stop.x - x, behind img.height r.stop.y - y⟩

/-- The part of a rectangle that lies in a box of pixels. -/
def Rect.clipTo (r : Rect α) (b : PixelBox) : Rect α :=
  let start : Vec2 α :=
    ⟨Scalar.max (Scalar.ofNat b.x) r.uv.x, Scalar.max (Scalar.ofNat b.y) r.uv.y⟩
  let stop : Vec2 α :=
    ⟨Scalar.min (Scalar.ofNat (b.x + b.width)) r.stop.x,
      Scalar.min (Scalar.ofNat (b.y + b.height)) r.stop.y⟩
  ⟨start, stop - start⟩

/-- Which part of a rectangle another one is. -/
def Crop.between (whole part : Rect α) : Crop α :=
  let start := (part.uv - whole.uv).zipWith (· / ·) whole.size
  let size := part.size.zipWith (· / ·) whole.size
  ⟨start.x, start.y, size.x, size.y⟩

/-- The part of a rectangle in which something can be seen, if that is less than all of it. -/
def visibleCrop (img : Image) (r : Rect α) : Option (Rect α × Crop α) :=
  if !r.isFinite || decide (r.size.x ≤ 0) || decide (r.size.y ≤ 0) then none
  else
    match img.visibleBox (img.touchedBox r) with
    | none => none
    | some box =>
      let part := r.clipTo box
      let crop := Crop.between r part
      if crop == Crop.whole then none else some (part, crop)

/-- What a texture shows of an image. Without an image it shows all of the placeholder. -/
def TextureFragment.apply (f : TextureFragment α) : Option LoadedImage → ImageFragment α
  | none => ⟨.placeholder, ⟨.fill 0, Image.placeholder.extent⟩, none⟩
  | some loaded =>
    let image := (loaded.image.tinted loaded.format f.tint).faded f.opacity
    let extent := image.extent
    let rect : Rect α := ⟨f.rect.uv.zipWith (· * ·) extent, f.rect.size.zipWith (· * ·) extent⟩
    match if f.croppable then visibleCrop image rect else none with
    | some (part, crop) => ⟨image, part, some crop⟩
    | none => ⟨image, rect, none⟩

end

end BlockModels
