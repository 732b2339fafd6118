import BlockModels.Diagnostic

/-!
# Failures

The causes for which a run ends without a result.
-/

namespace BlockModels

/-- Why there is no result. -/
inductive Failure where
  /-- A document is not JSON, or not of the expected form. -/
  | malformedData
  /-- An archive cannot be opened. -/
  | unreadableArchive
  /-- A file or directory cannot be read. -/
  | unreadableFile
  /-- A name pattern does not follow the pattern language. -/
  | invalidPattern (pattern : String)
  /-- A rule bundle holds no table. -/
  | noRuleTables
  /-- A rule bundle holds a table twice; `path` is the second file. -/
  | repeatedTable (table path : String)
  /-- A shape copies itself, and this is not to be worked around. -/
  | selfCopy (shape : String)
  /-- Copies are nested deeper than the limit, and this is not to be worked around. -/
  | copyDepth (shape : String) (limit : Nat)
  /-- A row of pixels is to be copied to or from where an image has none. -/
  | rowOutside
  deriving Repr, DecidableEq, Inhabited

/-- The text of a failure that concerns the content of the data; the others are told by their kind
alone. -/
def Failure.message : Failure → String
  | .malformedData | .unreadableArchive | .unreadableFile | .rowOutside => ""
  | .invalidPattern pattern => pattern
  | .noRuleTables => "Invalid rule bundle: No rule tables found"
  | .repeatedTable table path =>
    "Invalid rule bundle: Table " ++ table ++ " defined twice (second copy in " ++ path ++ ")"
  | .selfCopy shape => "Shape " ++ shape ++ " copies itself"
  | .copyDepth shape limit =>
    "Copy nesting deeper than " ++ toString limit ++ " while expanding " ++ shape

end BlockModels
