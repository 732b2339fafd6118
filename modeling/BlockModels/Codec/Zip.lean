import BlockModels.Codec.Checksum
import BlockModels.Codec.Inflate

/-!
# Archives

An archive ends in a record that says where the directory of its files is. The directory names each
file and says where it begins, how long it is, and how it is packed. Positions count from the
beginning of the archive, in front of which there may be other bytes.

The record is the last one that leads to a directory in which all is as it should be. The files are
unpacked one by one, so that what is wrong with one of them shows only when it is read.
-/

namespace BlockModels.Codec

/-- A file as an archive holds it. -/
structure PackedFile where
  encrypted : Bool
  method : Nat
  checksum : Nat
  data : ByteArray
  deriving Inhabited

/-- The file is packed in a known way: not at all, or compressed. -/
def PackedFile.isKnown (f : PackedFile) : Bool :=
  !f.encrypted && (f.method == 0 || f.method == 8)

/-- The content of a file, if it has the right check sum. -/
def PackedFile.unpack? (f : PackedFile) : Option ByteArray := do
  let content ← if f.method = 0 then some f.data else inflate? f.data
  if (crc content.toList).toNat = f.checksum then content else none

/-- What the record at the end of an archive says: where it stands itself, how many files there are
and how many of them are in this file, and where the directory begins. -/
structure ArchiveEnd where
  position : Nat
  files : Nat
  filesHere : Nat
  directory : Nat

/-- The record at a position. The comment behind it has to fit, and the archive has to be in one
file. -/
def archiveEnd? (data : ByteArray) (i : Nat) : Option ArchiveEnd := do
  if !startsAt data i [0x50, 0x4b, 0x05, 0x06] then none
  let disk ← little? data (i + 4) 2
  let directoryDisk ← little? data (i + 6) 2
  let filesHere ← little? data (i + 8) 2
  let files ← little? data (i + 10) 2
  let directory ← little? data (i + 16) 4
  let commentLength ← little? data (i + 20) 2
  if disk ≠ directoryDisk ∨ data.size < i + 22 + commentLength then none
  return { position := i, files, filesHere, directory }

/-- The bytes that an entry of the directory begins with. -/
def directorySignature : List UInt8 := [0x50, 0x4b, 0x01, 0x02]

/-- How many bytes there are in front of the archive: the directory begins with its first entry from
the stated position on. An archive without files ends right behind its beginning. -/
def ArchiveEnd.shift? (e : ArchiveEnd) (data : ByteArray) : Option Nat :=
  if e.files = 0 then some (e.position - e.directory)
  else
    (List.range (e.position - e.directory)).find? fun k =>
      let i := e.directory + k
      decide (i + 4 ≤ e.position) && startsAt data i directorySignature

/-- The characters of the bytes from 128 on, in names that do not say how they are written. -/
def upperHalf : List Char :=
  ("ÇüéâäàåçêëèïîìÄÅÉæÆôöòûùÿÖÜ¢£¥₧ƒáíóúñÑªº¿⌐¬½¼¡«»░▒▓│┤╡╢╖╕╣║╗╝╜╛┐"
    ++ "└┴┬├─┼╞╟╚╔╩╦╠═╬╧╨╤╥╙╘╒╓╫╪┘┌█▄▌▐▀αßΓπΣσµτΦΘΩδ∞φε∩≡±≥≤⌠⌡÷≈°∙·√ⁿ²■\u00a0").toList

/-- The name in some bytes. -/
def archivedName (isUnicode : Bool) (bytes : ByteArray) : String :=
  let replaced (b : UInt8) : Char := if b < 128 then Char.ofNat b.toNat else '\uFFFD'
  if isUnicode then
    (String.fromUTF8? bytes).getD (String.ofList (bytes.toList.map replaced))
  else
    String.ofList (bytes.toList.map fun b =>
      if b < 128 then Char.ofNat b.toNat else upperHalf.getD (b.toNat - 128) '\uFFFD')

/-- The position behind the header of a file, which begins at a position. -/
def contentStart? (data : ByteArray) (start : Nat) : Option Nat := do
  if !startsAt data start [0x50, 0x4b, 0x03, 0x04] then none
  let nameLength ← little? data (start + 26) 2
  let extraLength ← little? data (start + 28) 2
  return start + 30 + nameLength + extraLength

/-- So many entries of a directory, from a position on. All files begin in front of the directory.
-/
def directoryEntries? (data : ByteArray) (shift directory : Nat) :
    Nat → Nat → Option (List (String × PackedFile))
  | 0, _ => some []
  | n + 1, i => do
    if !startsAt data i directorySignature then none
    let flags ← little? data (i + 8) 2
    let method ← little? data (i + 10) 2
    let checksum ← little? data (i + 16) 4
    let length ← little? data (i + 20) 4
    let nameLength ← little? data (i + 28) 2
    let extraLength ← little? data (i + 30) 2
    let commentLength ← little? data (i + 32) 2
    let start ← little? data (i + 42) 4
    let next := i + 46 + nameLength + extraLength + commentLength
    if data.size < next then none
    let name := archivedName (flags / 2048 % 2 = 1) (data.extract (i + 46) (i + 46 + nameLength))
    let content ← contentStart? data (start + shift)
    if directory ≤ start + shift ∨ directory < content then none
    let file : PackedFile := {
      encrypted := flags % 2 = 1
      method
      checksum
      data := data.extract content (content + length) }
    return (name, file) :: (← directoryEntries? data shift directory n next)

/-- The files of the archive that ends with the record at a position. -/
def filesBefore? (data : ByteArray) (i : Nat) : Option (List (String × PackedFile)) := do
  let e ← archiveEnd? data i
  let shift ← e.shift? data
  directoryEntries? data shift (e.directory + shift) e.filesHere (e.directory + shift)

/-- The files of the archive that ends before a position, as far back as there is one. -/
def lastArchive? (data : ByteArray) : Nat → Option (List (String × PackedFile))
  | 0 => none
  | i + 1 =>
    match filesBefore? data i with
    | some files => some files
    | none => lastArchive? data i

/-- Reads an archive: its files in order, with their names. -/
def decodeZip? (data : ByteArray) : Option (List (String × PackedFile)) :=
  lastArchive? data data.size

end BlockModels.Codec
