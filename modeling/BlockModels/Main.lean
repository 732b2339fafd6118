import BlockModels.Command.Run
import BlockModels.Files.Reading

/-!
# The program

Runs the command that the arguments ask for in the real world, where files are read and written as
the command goes on.
-/

namespace BlockModels.Command

/-- How deep directories are followed. -/
def maxTreeDepth : Nat := 256

/-- The files below a directory, each by its path from there, so many directories deep. -/
def readTree : Nat → String → String → IO (List (String × ByteArray))
  | 0, _, _ => return []
  | depth + 1, directory, below => do
    let entries ← (← IO.FS.realPath directory).readDir
    let found ← entries.toList.mapM fun entry => do
      let path := joinPath directory entry.fileName
      let name := if below.isEmpty then entry.fileName else joinPath below entry.fileName
      if ← entry.path.isDir then
        return (name ++ "/", ByteArray.empty) :: (← readTree depth path name)
      return [(name, ← IO.FS.readBinFile path)]
    return found.flatten

/-- What a path leads to. -/
def readPlace (path : String) : IO (Option Place) := do
  try
    if ← (← IO.FS.realPath path).isDir then
      let files ← readTree maxTreeDepth path ""
      return some (.folder (Folder.ofList (files.map fun f => (f.1, FileData.ofBytes f.1 f.2))))
    return some (.file (FileData.ofBytes path (← IO.FS.readBinFile path)))
  catch _ => return none

/-- An action went well. -/
def succeeds (action : IO Unit) : IO Bool := do
  try
    action
    return true
  catch _ => return false

/-- The bytes of a file. -/
def fileBytes : FileData → ByteArray
  | .text s => s.toUTF8
  | .picture _ image => Codec.encodePng image
  | .bytes b => b

/-- The world in which the program runs. -/
def realWorld : World IO where
  print := IO.println
  place := readPlace
  filesBelow directory := return ((← readPlace directory).elim (fun _ => none) Place.find?)
  makeFolder path := succeeds (IO.FS.createDirAll path)
  write path data := succeeds (IO.FS.writeBinFile path (fileBytes data))

/-- What is said about a command that ends early. -/
def Trouble.text : Trouble → String
  | .usage => "usage: compile -i INPUT -r RULES -t TEXTURES -o OUTPUT [-c CONFIG] " ++
    "[--scale NUMBER] [--outline NUMBER] [--strict] | info -r RULES [-b BLOCK]..."
  | .argument message => "Error: " ++ Text.quote message
  | .failure .unreadableFile => "Error: a file cannot be read"
  | .failure .unreadableArchive => "Error: a file is not an archive"
  | .failure .malformedData => "Error: a document is not as it should be"
  | .failure cause => "Error: " ++ cause.message

/-- Runs the command that arguments ask for. -/
def runProgram (arguments : List String) : IO UInt32 := do
  match ← run realWorld arguments with
  | none => return 0
  | some trouble =>
    IO.eprintln trouble.text
    return 1

end BlockModels.Command

/-- The program. -/
def main (arguments : List String) : IO UInt32 := BlockModels.Command.runProgram arguments
