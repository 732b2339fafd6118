import BlockModels.Catalog.Reader
import BlockModels.Files.Archive
import BlockModels.Files.Folder
import BlockModels.Json.Parser

/-!
# Rule bundles

A bundle is a set of documents, in an archive or in a folder, each of which holds the table that
its file is named after (`tableStem`). Documents of other names do not belong to the bundle. A
table must not come twice, and there has to be one. A bundle with its tables is the same as one
document with the tables as its fields (`Catalog.ofTables`).
-/

namespace BlockModels

/-- The tables of a bundle by their names. -/
abbrev TableSet := Table Json

/-- A document of a bundle: its path and its text. -/
abbrev BundleFile := String × String

/-- The text without an ending, as often as it is there. The number bounds how often. -/
def withoutEnding (ending : List Char) : Nat → List Char → List Char
  | 0, cs => cs
  | fuel + 1, cs =>
    if !ending.isEmpty && Text.endsIn ending cs then
      withoutEnding ending fuel (cs.take (cs.length - ending.length))
    else cs

/-- The name of the table in a file: what stands behind the last slash of its path, without endings
`.json`. -/
def tableStem (path : String) : String :=
  let name := (path.toList.reverse.takeWhile fun c => c != '/' && c != '\\').reverse
  String.ofList (withoutEnding ".json".toList name.length name)

/-- Reads a document; it has one value in a canonical form. -/
def readDocument (text : String) : Except Failure Json :=
  match (Json.parse? text).bind Json.canonical? with
  | some j => .ok j
  | none => .error .malformedData

/-- Adds the table of a document. -/
def TableSet.add (tables : TableSet) (file : BundleFile) : Except Failure TableSet := do
  let stem := tableStem file.1
  if !Catalog.tableNames.contains stem then return tables
  if tables.contains stem then throw (.repeatedTable stem file.1)
  return tables.insert stem (← readDocument file.2)

/-- The rules of a set of tables. -/
def Catalog.ofTables (tables : TableSet) : Except Failure (Catalog Float) :=
  if tables.isEmpty then .error .noRuleTables
  else
    match Catalog.ofJson? (.obj tables.entries) with
    | some c => .ok c
    | none => .error .malformedData

/-- Adds the tables of documents in order. -/
def TableSet.addAll (tables : TableSet) (files : List BundleFile) : Except Failure TableSet :=
  files.foldlM TableSet.add tables

/-- The text of a file that has to hold one. -/
def FileData.readText (data : FileData) : Except Failure String :=
  match data.text? with
  | some content => .ok content
  | none => .error .unreadableFile

/-- Adds the table of a file of an archive. Only a file that is named as a document is read. -/
def TableSet.addEntry (tables : TableSet) (e : String × Member) : Except Failure TableSet := do
  if !Text.endsIn ".json".toList e.1.toList then return tables
  let text ← (← e.2.read).readText
  tables.add (e.1, text)

/-- The rules of an archive. -/
def Archive.rules (a : Archive) : Except Failure (Catalog Float) := do
  let tables ← a.foldFiles TableSet.addEntry (.empty : TableSet)
  Catalog.ofTables tables

/-- The documents of a folder at a path, in the order of their routes. -/
def Folder.documents (t : Folder) (path : String) : Except Failure (List BundleFile) :=
  (t.sortedFiles.filter fun e => isDocumentName (e.1.getLast?.getD "")).mapM fun e => do
    let text ← e.2.readText
    let full := joinPath path (String.intercalate "/" e.1)
    return (String.ofList (full.toList.map fun c => if c = '\\' then '/' else c), text)

/-- The rules of a folder at a path. All documents are read before the first table is looked at. -/
def Folder.rules (t : Folder) (path : String) : Except Failure (Catalog Float) := do
  let tables ← TableSet.addAll .empty (← t.documents path)
  Catalog.ofTables tables

/-- The rules in the text of one document. -/
def Catalog.ofDocument (text : String) : Except Failure (Catalog Float) :=
  match (Json.parse? text).bind Catalog.ofJson? with
  | some c => .ok c
  | none => .error .malformedData

/-- The rules of a file, taken as an archive. -/
def FileData.rules (data : FileData) : Except Failure (Catalog Float) :=
  match data.archive? with
  | some a => a.rules
  | none => .error .unreadableArchive

/-- The last step of a path. -/
def lastStep (path : String) : String := ((Folder.steps path).getLast?).getD ""

/-- The rules that a path leads to: a folder, a document or an archive. -/
def Place.rules (path : String) : Option Place → Except Failure (Catalog Float)
  | none => .error .unreadableFile
  | some (.folder t) => t.rules path
  | some (.file data) =>
    if isDocumentName (lastStep path) then do Catalog.ofDocument (← data.readText)
    else data.rules

end BlockModels
