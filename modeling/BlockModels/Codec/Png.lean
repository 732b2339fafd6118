import BlockModels.Codec.Checksum
import BlockModels.Codec.Inflate
import BlockModels.Image.Basic

/-!
# Pictures in the newer format

A file is a signature and a list of chunks, each with a kind, data and a check sum. The pixels of
all rows are compressed together. Before that, each byte is given as the difference from a
prediction out of the bytes to the left and above; every row says by which one.

Pictures with channels of eight bits, in gray, in colour or from a palette, with or without
opacity, are read; rows have to come in order. Pictures are written in colour with opacity,
without predictions and without compression.
-/

namespace BlockModels.Codec

/-- The first bytes of a file. -/
def pngSignature : List UInt8 := [0x89, 0x50, 0x4e, 0x47, 0x0d, 0x0a, 0x1a, 0x0a]

/-- The chunks of a file from a position on, each with its kind. -/
def chunksFrom? (data : ByteArray) : Nat → Nat → Option (List (List UInt8 × ByteArray))
  | 0, _ => none
  | fuel + 1, i => do
    let length ← big? data i 4
    let kind ← slice? data (i + 4) 4
    let body ← slice? data (i + 8) length
    if kind.toList = asciiBytes "IEND" then return []
    return (kind.toList, body) :: (← chunksFrom? data fuel (i + 12 + length))

/-- What the first chunk says. -/
structure PngHeader where
  width : Nat
  height : Nat
  colorKind : Nat

/-- Reads the first chunk. -/
def pngHeader? (body : ByteArray) : Option PngHeader := do
  let width ← big? body 0 4
  let height ← big? body 4 4
  let depth ← big? body 8 1
  let colorKind ← big? body 9 1
  if depth ≠ 8 ∨ body.toList.drop 10 ≠ [0, 0, 0] ∨ width = 0 ∨ height = 0 then none
  return { width, height, colorKind }

/-- The number of bytes of a pixel. -/
def PngHeader.pixelBytes? (h : PngHeader) : Option Nat :=
  [(0, 1), (2, 3), (3, 1), (4, 2), (6, 4)].lookup h.colorKind

/-- Of the bytes to the left, above and above to the left, the one that is nearest to the first two
less the third. -/
def nearestNeighbour (left above corner : Nat) : Nat :=
  let distance (v : Nat) : Nat := (Int.ofNat left + above - corner - v).natAbs
  if distance left ≤ distance above ∧ distance left ≤ distance corner then left
  else if distance above ≤ distance corner then above
  else corner

/-- The prediction of a byte by its row's rule. -/
def predict? (rule left above corner : Nat) : Option Nat :=
  match rule with
  | 0 => some 0
  | 1 => some left
  | 2 => some above
  | 3 => some ((left + above) / 2)
  | 4 => some (nearestNeighbour left above corner)
  | _ => none

/-- The bytes of a row, which begins at a position of the data, given the row above it. -/
def pngRow? (data : ByteArray) (start rowBytes pixelBytes : Nat) (above : ByteArray) :
    Option ByteArray := do
  let rule ← byte? data start
  (List.range rowBytes).foldlM (fun (row : ByteArray) k => do
    let given ← byte? data (start + 1 + k)
    let before (bytes : ByteArray) : Nat :=
      if k < pixelBytes then 0 else ((byte? bytes (k - pixelBytes)).getD 0).toNat
    let prediction ← predict? rule.toNat (before row) ((byte? above k).getD 0).toNat (before above)
    return row.push (UInt8.ofNat (given.toNat + prediction))) .empty

/-- The bytes of all rows. -/
def pngRows? (data : ByteArray) (rowBytes pixelBytes : Nat) : Nat → Nat → ByteArray →
    Option (List ByteArray)
  | 0, _, _ => some []
  | rows + 1, start, above => do
    let row ← pngRow? data start rowBytes pixelBytes above
    return row :: (← pngRows? data rowBytes pixelBytes rows (start + 1 + rowBytes) row)

/-- A pixel from its bytes. In gray and in plain colour one value may be see-through; with a palette
the opacities of its entries are listed apart. -/
def pngPixel? (colorKind : Nat) (palette opacity : ByteArray) (bytes : List UInt8) :
    Option Pixel :=
  let plain (values : List UInt8) : UInt8 :=
    if opacity.toList = values.flatMap fun v => [0, v] then 0 else 255
  match colorKind, bytes with
  | 0, [v] => some ⟨v, v, v, plain [v]⟩
  | 2, [r, g, b] => some ⟨r, g, b, plain [r, g, b]⟩
  | 3, [v] => do
    let i := v.toNat
    return ⟨← byte? palette (3 * i), ← byte? palette (3 * i + 1), ← byte? palette (3 * i + 2),
      (byte? opacity i).getD 255⟩
  | 4, [v, a] => some ⟨v, v, v, a⟩
  | 6, [r, g, b, a] => some ⟨r, g, b, a⟩
  | _, _ => none

/-- Reads a picture. -/
def decodePng? (data : ByteArray) : Option Image := do
  if !startsAt data 0 pngSignature then none
  let chunks ← chunksFrom? data data.size pngSignature.length
  let body (kind : String) : ByteArray :=
    (chunks.filter fun c => c.1 = asciiBytes kind).foldl (fun all c => all ++ c.2) .empty
  let h ← pngHeader? (body "IHDR")
  let n ← h.pixelBytes?
  let packed := body "IDAT"
  let raw ← inflate? (packed.extract 2 packed.size)
  let rows ← pngRows? raw (h.width * n) n h.height 0 .empty
  let pixels ← rows.foldlM (fun (pixels : Array Pixel) row =>
    (List.range h.width).foldlM (fun pixels x => do
      let bytes := (row.extract (x * n) (x * n + n)).toList
      return pixels.push (← pngPixel? h.colorKind (body "PLTE") (body "tRNS") bytes)) pixels) #[]
  Image.ofPixels? h.width h.height pixels

/-! ## Writing -/

/-- A chunk. -/
def pngChunk (kind : String) (body : List UInt8) : List UInt8 :=
  let named := asciiBytes kind ++ body
  bigBytes body.length 4 ++ named ++ bigBytes (crc named).toNat 4

/-- Blocks of bytes that stand as they are. -/
def storedBlocks : Nat → List UInt8 → List UInt8
  | 0, _ => []
  | fuel + 1, bytes =>
    let block := bytes.take 65535
    let rest := bytes.drop 65535
    let header := littleBytes block.length 2 ++ littleBytes (65535 - block.length) 2
    if rest.isEmpty then 1 :: header ++ block else 0 :: header ++ block ++ storedBlocks fuel rest

/-- The file of a picture. -/
def encodePng (img : Image) : ByteArray :=
  let row (y : Nat) : List UInt8 := 0 :: (List.range img.width).flatMap fun x =>
    let p := img.get x y
    [p.r, p.g, p.b, p.a]
  let raw := (List.range img.height).flatMap row
  let header := bigBytes img.width 4 ++ bigBytes img.height 4 ++ [8, 6, 0, 0, 0]
  let packed := [0x78, 0x01] ++ storedBlocks (raw.length + 1) raw ++ bigBytes (adler raw) 4
  ⟨(pngSignature ++ pngChunk "IHDR" header ++ pngChunk "IDAT" packed
    ++ pngChunk "IEND" []).toArray⟩

end BlockModels.Codec
