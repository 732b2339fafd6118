import BlockModels.Files.Basic
import BlockModels.Text.Cut

/-!
# Folders

A `Folder` is a tree of files, in which a path is followed step by step. A path leads to a file or
to another folder (`Place`). Directories are made and files are written where the steps before the
last one lead to a directory; what is in the way otherwise is an `Obstacle`.
-/

namespace BlockModels

/-- A tree of files, by the steps that lead to each, and directories that are there even if they
are empty. -/
structure Folder where
  files : List (List String × FileData) := []
  folders : List (List String) := []
  deriving Inhabited

namespace Folder

/-- The steps of a path. -/
def steps (path : String) : List String := (Text.splitAt '/' path.toList).map String.ofList

/-- Adds a file or, by a path that ends in a slash, a directory. -/
def add (t : Folder) (path : String) (data : FileData) : Folder :=
  let route := (steps path).filter fun s => s ≠ "" ∧ s ≠ "."
  if path.toList.getLast? = some '/' then { t with folders := t.folders ++ [route] }
  else { t with files := t.files.filter (fun e => e.1 ≠ route) ++ [(route, data)] }

/-- The tree of files that are added in order. -/
def ofList (files : List (String × FileData)) : Folder :=
  files.foldl (fun t e => t.add e.1 e.2) {}

/-- The file at the end of some steps. -/
def fileAt? (t : Folder) (route : List String) : Option FileData :=
  (t.files.find? fun e => e.1 = route).map (·.2)

/-- There is a directory at the end of some steps. -/
def isFolder (t : Folder) (route : List String) : Bool :=
  route.isEmpty || t.folders.any (fun r => route.isPrefixOf r)
    || t.files.any fun e => route.isPrefixOf e.1 && e.1 != route

/-- Why steps lead nowhere. -/
inductive Obstacle where
  /-- There is nothing to go on from. -/
  | missing
  /-- A file is in the way. -/
  | file
  /-- A directory is in the way. -/
  | folder
  /-- A name is longer than names may be. -/
  | longName
  /-- The steps lead out of the tree. -/
  | outside
  deriving Repr, DecidableEq, Inhabited

/-- There is a directory at the end of some steps. -/
def enter (t : Folder) (route : List String) : Except Obstacle (List String) :=
  if t.isFolder route then .ok route
  else if (t.fileAt? route).isSome then .error .file
  else .error .missing

/-- How many bytes a name may have. -/
def maxNameBytes : Nat := 255

/-- Adds a name to some steps. -/
def enterName (route : List String) (name : String) : Except Obstacle (List String) :=
  if name.utf8ByteSize ≤ maxNameBytes then .ok (route ++ [name]) else .error .longName

/-- Follows steps from a directory. Every step is taken from a directory, whatever the last one
leads to; `.` and an empty step stay there, `..` goes back, but not out of the tree. -/
def walk (t : Folder) (here : List String) : List String → Except Obstacle (List String)
  | [] => .ok here
  | step :: rest => do
    let here ← t.enter here
    if step = "" ∨ step = "." then walk t here rest
    else if step = ".." then
      if here.isEmpty then throw .outside
      walk t here.dropLast rest
    else walk t (← enterName here step) rest

/-- Where a path leads. A path from the root of all files leads out of the tree. -/
def route? (t : Folder) (path : String) : Option (List String) :=
  if path.toList.head? = some '/' then none else (t.walk [] (steps path)).toOption

/-- Finds a file by its path. -/
def find? (t : Folder) : FileLookup := fun path => (t.route? path).bind t.fileAt?

/-- The routes below a step, from there on. -/
def routesBelow {β : Type} (route : List String) (entries : List (List String × β)) :
    List (List String × β) :=
  (entries.filter fun e => route.isPrefixOf e.1).map fun e => (e.1.drop route.length, e.2)

/-- The folder at the end of some steps. -/
def below (t : Folder) (route : List String) : Folder where
  files := (routesBelow route t.files).filter fun e => !e.1.isEmpty
  folders := (routesBelow route (t.folders.map fun r => (r, ()))).map (·.1)

/-- A route does not come after another: the first steps that differ decide, and a route comes
before those that go on from it. -/
def notAfter : List String → List String → Bool
  | [], _ => true
  | _ :: _, [] => false
  | a :: as, b :: bs => if a = b then notAfter as bs else decide (a < b)

/-- The files in the order of their routes. -/
def sortedFiles (t : Folder) : List (List String × FileData) :=
  t.files.mergeSort fun a b => notAfter a.1 b.1

/-! ## Changes -/

/-- Makes the directory at the end of steps, unless it is there. The directory around it has to be
there; slashes at the end do not count. -/
def make (t : Folder) (route : List String) : Except Obstacle Folder := do
  let route := route.filter fun s => s ≠ ""
  let here ← t.enter (← t.walk [] route.dropLast)
  match route.getLast? with
  | none | some "." | some ".." => return t
  | some name =>
    let target ← enterName here name
    if t.isFolder target then return t
    if (t.fileAt? target).isSome then throw .file
    return { t with folders := t.folders ++ [target] }

/-- Makes a directory, and if there is nothing to make it in, first the directories around it. They
are listed from the inside out. -/
def makeWithin (t : Folder) : List (List String) → Except Obstacle Folder
  | [] => .error .missing
  | route :: around =>
    match t.make route with
    | .error .missing => do (← t.makeWithin around).make route
    | result => result

/-- The steps of a path without those that stay where they are, and the same without the last one,
and so on. -/
def routesAround (route : List String) : List (List String) :=
  let route := route.filter fun s => s ≠ "" ∧ s ≠ "."
  (List.range route.length).map fun n => route.take (route.length - 1 - n)

/-- Makes a directory and those around it. -/
def makeAll (t : Folder) (path : String) : Except Obstacle Folder :=
  let route := steps path
  t.makeWithin (route :: routesAround route)

/-- Writes a file, in a directory that is there and not in the place of another one. -/
def write (t : Folder) (path : String) (data : FileData) : Except Obstacle Folder := do
  let target ← t.walk [] (steps path)
  let _ ← t.enter target.dropLast
  if t.isFolder target then throw .folder
  return { t with files := t.files.filter (fun e => e.1 ≠ target) ++ [(target, data)] }

end Folder

/-- What a path leads to. -/
inductive Place where
  | file (data : FileData)
  | folder (tree : Folder)
  deriving Inhabited

/-- What a path from a folder leads to. -/
def Folder.place? (t : Folder) (path : String) : Option Place := do
  let route ← t.route? path
  match t.fileAt? route with
  | some data => some (.file data)
  | none => if t.isFolder route then some (.folder (t.below route)) else none

/-- The text of a file. -/
def Place.text? : Place → Option String
  | .file data => data.text?
  | .folder _ => none

/-- The files of a folder by their paths. -/
def Place.find? : Place → FileLookup
  | .folder t => t.find?
  | .file _ => fun _ => none

/-- The path of something in a directory. -/
def joinPath (directory name : String) : String :=
  if directory.toList.getLast? = some '/' then directory ++ name else directory ++ "/" ++ name

/-- The name ends in `.json` and has something before it. -/
def isDocumentName (name : String) : Bool :=
  Text.endsIn ".json".toList name.toList && name != ".json"

end BlockModels
