import BlockModels.Codec.Bytes
import BlockModels.Image.Basic

/-!
# Pictures in the older format

A header of eighteen bytes, then the pixels row by row, from the bottom unless the header says
otherwise, each with its blue channel first. The pixels may be given in packets: so many pixels, or
one pixel so many times.
-/

namespace BlockModels.Codec

/-- What the header of a file says. -/
structure TgaHeader where
  width : Nat
  height : Nat
  /-- The number of bytes of a pixel. -/
  pixelBytes : Nat
  gray : Bool
  packets : Bool
  fromTop : Bool
  /-- Where the pixels begin. -/
  start : Nat

/-- Reads the header. Pictures with a palette are not read. -/
def tgaHeader? (data : ByteArray) : Option TgaHeader := do
  let kind ← little? data 2 1
  let depth ← little? data 16 1
  let gray := kind = 3 ∨ kind = 11
  if !([2, 3, 10, 11].contains kind) then none
  if !(if gray then [8, 16] else [24, 32]).contains depth then none
  return {
    width := ← little? data 12 2
    height := ← little? data 14 2
    pixelBytes := depth / 8
    gray
    packets := 10 ≤ kind
    fromTop := (← little? data 17 1) / 32 % 2 = 1
    start := 18 + (← little? data 0 1) }

/-- The pixel at a position. -/
def tgaPixel? (h : TgaHeader) (data : ByteArray) (i : Nat) : Option Pixel := do
  let bytes ← slice? data i h.pixelBytes
  match h.gray, bytes.toList with
  | true, [v] => some ⟨v, v, v, 255⟩
  | true, [v, a] => some ⟨v, v, v, a⟩
  | false, [b, g, r] => some ⟨r, g, b, 255⟩
  | false, [b, g, r, a] => some ⟨r, g, b, a⟩
  | _, _ => none

/-- So many pixels from a position on. -/
def tgaRun? (h : TgaHeader) (data : ByteArray) (i n : Nat) : Option (List Pixel) :=
  (List.range n).mapM fun k => tgaPixel? h data (i + k * h.pixelBytes)

/-- The pixels of packets until there are enough. -/
def tgaPackets? (h : TgaHeader) (data : ByteArray) :
    Nat → Nat → Nat → Option (List Pixel)
  | _, _, 0 => some []
  | 0, _, _ => none
  | fuel + 1, i, wanted => do
    let mark ← little? data i 1
    let count := mark % 128 + 1
    let (pixels, next) ←
      if 128 ≤ mark then do
        pure (List.replicate count (← tgaPixel? h data (i + 1)), i + 1 + h.pixelBytes)
      else do
        pure (← tgaRun? h data (i + 1) count, i + 1 + count * h.pixelBytes)
    return pixels.take wanted ++ (← tgaPackets? h data fuel next (wanted - count))

/-- Reads a picture. -/
def decodeTga? (data : ByteArray) : Option Image := do
  let h ← tgaHeader? data
  let count := h.width * h.height
  let pixels ←
    if h.packets then tgaPackets? h data data.size h.start count
    else tgaRun? h data h.start count
  let img ← Image.ofPixels? h.width h.height pixels.toArray
  return if h.fromTop then img
    else Image.ofFn h.width h.height fun x y => img.get x (h.height - 1 - y)

end BlockModels.Codec
