/-!
# Check sums

The two sums by which files tell whether their content is as it was written.
-/

namespace BlockModels.Codec

/-- One step of the cyclic sum for each bit of a byte. -/
def crcBits : Nat → UInt32 → UInt32
  | 0, c => c
  | n + 1, c => crcBits n (if c &&& 1 = 1 then (c >>> 1) ^^^ 0xedb88320 else c >>> 1)

/-- The cyclic sum, of the files of an archive and of the chunks of a picture. -/
def crc (bytes : List UInt8) : UInt32 :=
  let start : UInt32 := 0xffffffff
  (bytes.foldl (fun c b => crcBits 8 (c ^^^ b.toUInt32)) start) ^^^ start

/-- The sum of the data that is compressed in a picture. -/
def adler (bytes : List UInt8) : Nat :=
  let (a, b) := bytes.foldl
    (fun (a, b) v => ((a + v.toNat) % 65521, (b + a + v.toNat) % 65521)) (1, 0)
  b * 65536 + a

end BlockModels.Codec
