import BlockModels.Codec.Png
import BlockModels.Codec.Tga
import BlockModels.Files.Basic
import BlockModels.Text.Cut

/-!
# What bytes hold

The kind of a file is told by its first bytes. Only pictures in the older format have nothing of the
kind; they are known by their names.
-/

namespace BlockModels

/-- What a file holds, by its name and its bytes. -/
def FileData.ofBytes (name : String) (data : ByteArray) : FileData :=
  if Codec.startsAt data 0 Codec.pngSignature then
    match Codec.decodePng? data with
    | some img => .picture .png img
    | none => .bytes data
  else if Text.endsIn ".tga".toList name.toList then
    match Codec.decodeTga? data with
    | some img => .picture .tga img
    | none => .bytes data
  else
    match String.fromUTF8? data with
    | some s => .text s
    | none => .bytes data

end BlockModels
