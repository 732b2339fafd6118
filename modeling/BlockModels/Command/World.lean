import BlockModels.Files.Folder

/-!
# The world of a command

What a command can do: print a line, follow a path, find files below a directory, make a directory
and write a file. A command is the same in every world.

A `Disk` is a world in which everything is known: a tree of files below one directory, and the lines
that were printed. Beyond that directory there is nothing to read, and what is written there is
lost.
-/

namespace BlockModels.Command

/-- What a command can do. -/
structure World (m : Type → Type) where
  /-- Prints a line. -/
  print : String → m Unit
  /-- Follows a path. -/
  place : String → m (Option Place)
  /-- A way to find files by their paths from a directory. -/
  filesBelow : String → m FileLookup
  /-- Makes a directory and those around it, and tells whether it is there. -/
  makeFolder : String → m Bool
  /-- Writes a file, and tells whether this went well. -/
  write : String → FileData → m Bool

/-- A tree of files below a directory, and what was printed. -/
structure Disk where
  root : String
  tree : Folder := {}
  lines : List String := []
  deriving Inhabited

namespace Disk

/-- A path from the directory of the tree, if it leads there. -/
def within? (d : Disk) (path : String) : Option String :=
  if path = d.root then some ""
  else
    (Text.behind? (d.root ++ "/").toList path.toList).map fun rest =>
      String.ofList (rest.dropWhile (· == '/'))

/-- What a path leads to. -/
def place? (d : Disk) (path : String) : Option Place := (d.within? path).bind d.tree.place?

/-- Finds a file by its path from a directory. -/
def findBelow? (d : Disk) (directory : String) : FileLookup := fun path =>
  if path.toList.head? = some '/' then none
  else (d.within? (joinPath directory path)).bind d.tree.find?

/-- The disk after a change of the tree at a path, and whether it went well. What is outside is not
known; there it goes well. -/
def change (d : Disk) (path : String) (f : String → Except Folder.Obstacle Folder) : Bool × Disk :=
  match d.within? path with
  | none => (true, d)
  | some path =>
    match f path with
    | .ok tree => (true, { d with tree })
    | .error .outside => (true, d)
    | .error _ => (false, d)

/-- A disk as the world of a command. -/
def world : World (StateM Disk) where
  print line := modify fun d => { d with lines := d.lines ++ [line] }
  place path := return (← get).place? path
  filesBelow directory := return (← get).findBelow? directory
  makeFolder path d := d.change path d.tree.makeAll
  write path data d := d.change path fun path => d.tree.write path data

end Disk

end BlockModels.Command
