import BlockModels.Image.Fragment
import BlockModels.Table

/-!
# Files

What a file holds, and ways to find files by their paths. A `FileStore` has files by name; archives
and folders are in modules of their own.
-/

namespace BlockModels

/-- What a file holds: a text, a picture in one of the formats, or bytes that are neither. -/
inductive FileData where
  | text (s : String)
  | picture (format : ImageFormat) (image : Image)
  | bytes (b : ByteArray)
  deriving Inhabited

/-- The text that a file holds. -/
def FileData.text? : FileData → Option String
  | .text s => some s
  | .bytes b => String.fromUTF8? b
  | .picture _ _ => none

/-- The picture that a file holds in a format. -/
def FileData.picture? (format : ImageFormat) : FileData → Option Image
  | .picture f image => if f = format then some image else none
  | _ => none

/-- A way to find a file by its path. -/
abbrev FileLookup := String → Option FileData

/-- Files by name. -/
abbrev FileStore := Table FileData

/-- Finds a file by its whole name. -/
def FileStore.find? (files : FileStore) : FileLookup := files.get?

end BlockModels
