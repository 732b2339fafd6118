import BlockModels.Catalog.Basic
import BlockModels.Diagnostic

/-!
# Which shape a block has

An exact name comes before the patterns, and of the patterns the first that matches decides. A block
that no rule names has the default shape, and a note says so once per name: `ShapeMemo` holds the
shapes of the names that were asked for.
-/

namespace BlockModels

/-- The shape of blocks without a rule. -/
def defaultShape : String := "block"

/-- The shape that the rules give to a name without namespace. -/
def Catalog.shapeRule? {α : Type} (c : Catalog α) (name : String) : Option String :=
  (c.shapesByName.get? name).or (findPattern c.shapesByPattern name)

/-- The names asked for so far, with their shapes. -/
abbrev ShapeMemo := Table String

/-- A computation that asks for shapes, takes notes, and remembers the shapes. -/
abbrev ShapeLookup := StateT ShapeMemo Noted

/-- The shape of a block, by its name with or without namespace, where a rule gives shapes to names.
The rule is asked once for each name. -/
def lookUpShape (rule? : String → Option String) (blockName : String) :
    ShapeLookup String := fun memo =>
  let name := stripNamespace blockName
  match memo.get? name with
  | some shape => pure (shape, memo)
  | none =>
    match rule? name with
    | some shape => pure (shape, memo.insert name shape)
    | none => do
      Noted.info .defaultShape ("No shape rule for " ++ name ++ ", using " ++ defaultShape)
      pure (defaultShape, memo.insert name defaultShape)

/-- The shape that the rules give to a block, by its name with or without namespace. -/
def Catalog.resolveShape {α : Type} (c : Catalog α) (blockName : String) : ShapeLookup String :=
  lookUpShape c.shapeRule? blockName

/-- A shape written `shape\x7bpath\x7d` names an image to put on all of its cubes; the shape
without it, and the path if it is not empty. -/
def splitSpecial (shape : String) : String × Option String :=
  let cs := shape.toList
  match cs.dropWhile (· != '\x7b') with
  | _ :: rest =>
    if rest.getLast? == some '\x7d' then
      let path := rest.dropLast
      (String.ofList (cs.takeWhile (· != '\x7b')),
        if path.isEmpty then none else some (String.ofList path))
    else (shape, none)
  | [] => (shape, none)

end BlockModels
