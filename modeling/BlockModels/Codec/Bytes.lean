/-!
# Numbers in bytes

Whole numbers as they stand in files: some bytes from a position on, the lowest or the highest
first. Reading fails where the file ends.
-/

namespace BlockModels.Codec

/-- The byte at a position. -/
def byte? (data : ByteArray) (i : Nat) : Option UInt8 := data.data[i]?

/-- A number of so many bytes, the lowest first. -/
def little? (data : ByteArray) (i : Nat) : Nat → Option Nat
  | 0 => some 0
  | n + 1 => do return (← byte? data i).toNat + 256 * (← little? data (i + 1) n)

/-- A number of so many bytes, the highest first, behind what was read before it. -/
def bigFrom? (data : ByteArray) (i before : Nat) : Nat → Option Nat
  | 0 => some before
  | n + 1 => do bigFrom? data (i + 1) (256 * before + (← byte? data i).toNat) n

/-- A number of so many bytes, the highest first. -/
def big? (data : ByteArray) (i n : Nat) : Option Nat := bigFrom? data i 0 n

/-- So many bytes from a position on. -/
def slice? (data : ByteArray) (i n : Nat) : Option ByteArray :=
  if i + n ≤ data.size then some (data.extract i (i + n)) else none

/-- A number in so many bytes, the lowest first. -/
def littleBytes (value : Nat) : Nat → List UInt8
  | 0 => []
  | n + 1 => UInt8.ofNat (value % 256) :: littleBytes (value / 256) n

/-- A number in so many bytes, the highest first. -/
def bigBytes (value n : Nat) : List UInt8 := (littleBytes value n).reverse

/-- The bytes of a text of ASCII characters. -/
def asciiBytes (s : String) : List UInt8 := s.toList.map fun c => UInt8.ofNat c.toNat

/-- The bytes of the file at a position are the given ones. -/
def startsAt (data : ByteArray) (i : Nat) (bytes : List UInt8) : Bool :=
  (slice? data i bytes.length).any fun found => found.toList == bytes

end BlockModels.Codec
