import BlockModels.Codec.Zip
import BlockModels.Failure
import BlockModels.Files.Basic

/-!
# Archives of files

An `Archive` lists files in order, the later ones in the place of earlier ones of the same name.
Reading it opens one member after the other, so that the first one with which something is wrong
ends the reading.
-/

namespace BlockModels

/-- A file of an archive: what it holds, or how it is packed. -/
inductive Member where
  | plain (data : FileData)
  | packed (file : Codec.PackedFile)
  deriving Inhabited

/-- A member can be opened if it is packed in a known way. -/
def Member.canOpen : Member → Bool
  | .plain _ => true
  | .packed file => file.isKnown

/-- What a member holds. -/
def Member.read : Member → Except Failure FileData
  | .plain data => .ok data
  | .packed file =>
    match file.unpack? with
    | some content => .ok (.bytes content)
    | none => .error .unreadableFile

/-- Files with their names, in order. A name that ends in a slash is that of a directory. -/
structure Archive where
  entries : List (String × Member)
  deriving Inhabited

/-- The name is that of a directory. -/
def isDirectoryName (name : String) : Bool :=
  match name.toList.getLast? with
  | some c => c == '/' || c == '\\'
  | none => false

/-- Puts an entry in the place of one of the same name, or at the end. -/
def Archive.replaceEntry (e : String × Member) :
    List (String × Member) → List (String × Member)
  | [] => [e]
  | d :: rest => if d.1 = e.1 then e :: rest else d :: replaceEntry e rest

/-- The archive of files that are added in order. -/
def Archive.ofList (files : List (String × Member)) : Archive :=
  ⟨files.foldl (fun entries e => replaceEntry e entries) []⟩

/-- Opens the members one after the other, directories too, and goes on with each file. -/
def Archive.foldFiles {β : Type} (a : Archive) (step : β → String × Member → Except Failure β)
    (start : β) : Except Failure β :=
  a.entries.foldlM (fun found e => do
    if !e.2.canOpen then throw .unreadableArchive
    if isDirectoryName e.1 then return found
    step found e) start

/-- The files that a file holds as an archive. -/
def FileData.archive? (data : FileData) : Option Archive :=
  let ofBytes (b : ByteArray) : Option Archive :=
    (Codec.decodeZip? b).map fun files => .ofList (files.map fun f => (f.1, .packed f.2))
  match data with
  | .bytes b => ofBytes b
  | .text s => ofBytes s.toUTF8
  | .picture _ _ => none

/-- The files of an archive by name; a slash at the beginning of a name does not count. -/
def Archive.toStore (a : Archive) : Except Failure FileStore :=
  a.foldFiles (fun files e => do
    return files.insert (String.ofList (e.1.toList.dropWhile (· == '/'))) (← e.2.read)) .empty

end BlockModels
