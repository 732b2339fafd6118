import BlockModels.Json.Printer
import BlockModels.Json.Reader

/-!
# Blocks

A block is a name, a table of states, and sometimes data of a block entity. The name may carry a
namespace, which the rule tables do not: `shortName` is the name without it. `Block.cacheKey` writes
all of a block into one text.
-/

namespace BlockModels

/-- The value of a block state. -/
inductive StateValue where
  | bool (b : Bool)
  | int (i : Int64)
  | str (s : String)
  deriving Repr, DecidableEq, Inhabited

namespace StateValue

/-- The value as a whole number; truth values count as zero and one. -/
def number? : StateValue → Option Int64
  | .bool b => some (if b then 1 else 0)
  | .int i => some i
  | .str _ => none

/-- The JSON values that are states: truth values, whole numbers of 64 bits with sign, strings. -/
def ofJson? : Json → Option StateValue
  | .bool b => some (.bool b)
  | .str s => some (.str s)
  | j => j.int64?.map .int

/-- The value as JSON. -/
def toJson : StateValue → Json
  | .bool b => .bool b
  | .int i => .int i.toInt
  | .str s => .str s

/-- The text of the value, without quotes. -/
def text : StateValue → String
  | .bool b => if b then "true" else "false"
  | .int i => toString i.toInt
  | .str s => s

end StateValue

/-- The name after the first colon, or the whole name if it has none. -/
def stripNamespace (name : String) : String :=
  match name.toList.dropWhile (· != ':') with
  | ':' :: rest => String.ofList rest
  | _ => name

/-- A block of the palette, or one embedded in another. `copied` marks one that stands in for its
host: it was found in the host's entity data. -/
structure Block where
  name : String
  states : Table StateValue := .empty
  entity : Option (List (String × Json)) := none
  copied : Bool := false
  deriving Inhabited

namespace Block

/-- The name without its namespace. -/
def shortName (b : Block) : String := stripNamespace b.name

/-- The value of a state. -/
def state? (b : Block) (key : String) : Option StateValue := b.states.get? key

/-- A property of the entity data. -/
def entityValue? (b : Block) (key : String) : Option Json :=
  b.entity.bind (Table.lookup key)

/-- The block with states replaced or added. -/
def withStates (b : Block) (overrides : Table StateValue) : Block :=
  { b with states := overrides.orElse b.states }

/-- The states as a JSON object. -/
def statesJson (b : Block) : Json :=
  .obj (b.states.entries.map fun e => (e.1, e.2.toJson))

/-- The states as `name=value`, separated by commas. -/
def statesText (b : Block) : String :=
  String.intercalate "," (b.states.entries.map fun e => e.1 ++ "=" ++ e.2.text)

/-- Name, states, entity data and mark in one text. -/
def cacheKey (b : Block) : String :=
  b.shortName
    ++ (if b.states.isEmpty then "" else "|" ++ b.statesText)
    ++ (match b.entity with
        | some members => "|" ++ (Json.obj members).compact
        | none => "")
    ++ (if b.copied then "|copied" else "")

/-- The members of an object in canonical order. -/
def entity? : Json → Option (List (String × Json))
  | .obj members =>
    match (Json.obj members).canonical? with
    | some (.obj members) => some members
    | _ => none
  | _ => none

/-- Reads a block from data. -/
def ofJson? (j : Json) : Option Block := do
  let f ← j.fields? ["name", "states", "block_entity_data"]
  let name ← f.required? "name" Json.string?
  let states ← f.withDefault? "states" (Json.table? StateValue.ofJson?) .empty
  let entity ← f.optional? "block_entity_data" entity?
  return { name, states, entity }

end Block

end BlockModels
