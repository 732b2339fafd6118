import BlockModels.Codec.Bytes

/-!
# Decompression

The compressed form that pictures and archives use: blocks of literal bytes, and of copies of what
came before. In a block, literals and lengths are one alphabet and distances another, each written
in a code in which frequent symbols have fewer bits.

A code is given by the number of bits of each symbol; of codes with equally many bits, those of
smaller symbols come first. Every step reads at least one bit, so the bits of the data bound the
number of steps.
-/

namespace BlockModels.Codec

/-- How far the data was read, in bits, and what came out of it. -/
structure Inflater where
  data : ByteArray
  position : Nat := 0
  output : ByteArray := .empty

/-- A step of the decompression, which fails on data that is not in this form. -/
abbrev Inflating := StateT Inflater Option

namespace Inflating

/-- The next bit. -/
def bit : Inflating Nat := fun s => do
  let b ← byte? s.data (s.position / 8)
  return ((b.toNat >>> (s.position % 8)) % 2, { s with position := s.position + 1 })

/-- A number of so many bits, the lowest first. -/
def bits : Nat → Inflating Nat
  | 0 => pure 0
  | n + 1 => do
    let low ← bit
    let high ← bits n
    return low + 2 * high

/-- Skips what is left of a byte. -/
def align : Inflating Unit := modify fun s => { s with position := (s.position + 7) / 8 * 8 }

/-- Puts out a byte. -/
def put (b : UInt8) : Inflating Unit := modify fun s => { s with output := s.output.push b }

/-- Puts out again so many bytes from so far back. -/
def copyBack (distance : Nat) : Nat → Inflating Unit
  | 0 => pure ()
  | n + 1 => do
    let s ← get
    if distance = 0 ∨ s.output.size < distance then failure
    match byte? s.output (s.output.size - distance) with
    | some b => put b
    | none => failure
    copyBack distance n

end Inflating

/-- A code: how many symbols have each number of bits, and the symbols in the order of their
codes. -/
structure PrefixCode where
  counts : Array Nat
  symbols : Array Nat

/-- The greatest number of bits of a symbol. -/
def maxCodeBits : Nat := 15

/-- The code in which each symbol has the given number of bits; one without bits has no code. -/
def PrefixCode.ofLengths (lengths : List Nat) : PrefixCode where
  counts := ((List.range (maxCodeBits + 1)).map fun n =>
    if n = 0 then 0 else lengths.count n).toArray
  symbols := ((List.range maxCodeBits).flatMap fun n =>
    (lengths.zipIdx.filter fun e => e.1 = n + 1).map (·.2)).toArray

/-- Reads a symbol. `first` is the first code of the present number of bits, `index` the number of
symbols with fewer bits. -/
def PrefixCode.readFrom (c : PrefixCode) : Nat → Nat → Nat → Nat → Nat → Inflating Nat
  | 0, _, _, _, _ => failure
  | fuel + 1, length, code, first, index => do
    let code := code + (← Inflating.bit)
    let count := c.counts.getD length 0
    if code < first + count then
      match c.symbols[index + (code - first)]? with
      | some symbol => return symbol
      | none => failure
    else c.readFrom fuel (length + 1) (2 * code) (2 * (first + count)) (index + count)

/-- Reads a symbol. -/
def PrefixCode.read (c : PrefixCode) : Inflating Nat := c.readFrom maxCodeBits 1 0 0 0

/-- A range of numbers: the least one, and the bits that tell which one it is. -/
abbrev NumberRange := Nat × Nat

/-- The lengths that symbols of the first alphabet stand for. -/
def lengthRanges : List NumberRange :=
  [(3, 0), (4, 0), (5, 0), (6, 0), (7, 0), (8, 0), (9, 0), (10, 0), (11, 1), (13, 1), (15, 1),
    (17, 1), (19, 2), (23, 2), (27, 2), (31, 2), (35, 3), (43, 3), (51, 3), (59, 3), (67, 4),
    (83, 4), (99, 4), (115, 4), (131, 5), (163, 5), (195, 5), (227, 5), (258, 0)]

/-- The distances that symbols of the second alphabet stand for. -/
def distanceRanges : List NumberRange :=
  [(1, 0), (2, 0), (3, 0), (4, 0), (5, 1), (7, 1), (9, 2), (13, 2), (17, 3), (25, 3), (33, 4),
    (49, 4), (65, 5), (97, 5), (129, 6), (193, 6), (257, 7), (385, 7), (513, 8), (769, 8),
    (1025, 9), (1537, 9), (2049, 10), (3073, 10), (4097, 11), (6145, 11), (8193, 12), (12289, 12),
    (16385, 13), (24577, 13)]

/-- Reads a number of the range that a symbol stands for. -/
def readRange (ranges : List NumberRange) (symbol : Nat) : Inflating Nat :=
  match ranges[symbol]? with
  | some (least, extra) => do return least + (← Inflating.bits extra)
  | none => failure

/-- The symbol that ends a block; those above it stand for lengths. -/
def endOfBlock : Nat := 256

/-- Reads the symbols of a block. -/
def readSymbols (literals distances : PrefixCode) : Nat → Inflating Unit
  | 0 => failure
  | fuel + 1 => do
    let symbol ← literals.read
    if symbol = endOfBlock then return
    if symbol < endOfBlock then Inflating.put (UInt8.ofNat symbol)
    else
      let length ← readRange lengthRanges (symbol - endOfBlock - 1)
      let distance ← readRange distanceRanges (← distances.read)
      Inflating.copyBack distance length
    readSymbols literals distances fuel

/-- The code of literals that need not be given. -/
def usualLiterals : PrefixCode :=
  .ofLengths (List.replicate 144 8 ++ List.replicate 112 9 ++ List.replicate 24 7
    ++ List.replicate 8 8)

/-- The code of distances that need not be given. -/
def usualDistances : PrefixCode := .ofLengths (List.replicate 30 5)

/-- Reads the numbers of bits of so many symbols, themselves in a code: a number, a repetition of
the last, or a run of zeros. -/
def readLengths (code : PrefixCode) (wanted : Nat) : Nat → List Nat → Inflating (List Nat)
  | 0, _ => failure
  | fuel + 1, before => do
    if wanted ≤ before.length then
      if before.length = wanted then return before.reverse else failure
    let symbol ← code.read
    let more ←
      if symbol < 16 then pure [symbol]
      else if symbol = 16 then
        match before with
        | last :: _ => do pure (List.replicate (3 + (← Inflating.bits 2)) last)
        | [] => failure
      else if symbol = 17 then do pure (List.replicate (3 + (← Inflating.bits 3)) 0)
      else do pure (List.replicate (11 + (← Inflating.bits 7)) 0)
    readLengths code wanted fuel (more ++ before)

/-- The symbols of the code of numbers of bits, in the order in which theirs are given. -/
def lengthSymbolOrder : List Nat :=
  [16, 17, 18, 0, 8, 7, 9, 6, 10, 5, 11, 4, 12, 3, 13, 2, 14, 1, 15]

/-- Reads the two codes of a block. -/
def readCodes : Inflating (PrefixCode × PrefixCode) := do
  let literals := 257 + (← Inflating.bits 5)
  let distances := 1 + (← Inflating.bits 5)
  let given := 4 + (← Inflating.bits 4)
  let lengths ← (List.range given).mapM fun _ => Inflating.bits 3
  let named := lengthSymbolOrder.zip lengths
  let code := PrefixCode.ofLengths ((List.range 19).map fun i => (named.lookup i).getD 0)
  let all ← readLengths code (literals + distances) (literals + distances + 1) []
  return (.ofLengths (all.take literals), .ofLengths (all.drop literals))

/-- Reads bytes that stand as they are. -/
def readStored : Inflating Unit := do
  Inflating.align
  let length ← Inflating.bits 16
  let complement ← Inflating.bits 16
  if length + complement ≠ 0xffff then failure
  (List.range length).forM fun _ => do Inflating.put (UInt8.ofNat (← Inflating.bits 8))

/-- Reads blocks up to the last one. -/
def readBlocks : Nat → Inflating Unit
  | 0 => failure
  | fuel + 1 => do
    let last ← Inflating.bit
    let kind ← Inflating.bits 2
    if kind = 0 then readStored
    else if kind = 1 then readSymbols usualLiterals usualDistances fuel
    else if kind = 2 then
      let (literals, distances) ← readCodes
      readSymbols literals distances fuel
    else failure
    if last = 1 then return
    readBlocks fuel

/-- What data stands for. -/
def inflate? (data : ByteArray) : Option ByteArray :=
  ((readBlocks (8 * data.size + 1)).run { data }).map fun r => r.2.output

end BlockModels.Codec
