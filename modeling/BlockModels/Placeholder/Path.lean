import BlockModels.Bounds
import BlockModels.Block
import BlockModels.Text.Cut
import BlockModels.Text.Quoted
import BlockModels.Decimal.Reading

/-!
# Paths into a block

A path starts at the name, the states or the entity data of a block and goes on by property names,
by positions in brackets, and by slices between two positions. `Path.parse` reads a path and
`Path.resolve` follows it. A path that leads nowhere ends at `null`.

A slice has two bounds, each of which may be left out. A negative bound counts from the end, and a
bound beyond an end is that end (`sliceBound`).
-/

namespace BlockModels.Placeholder

/-- Where a path starts. -/
inductive Root where
  | blockName
  | blockStates
  | entityData
  deriving Repr, DecidableEq, Inhabited

/-- One step of a path. -/
inductive Accessor where
  | property (key : String)
  /-- A position, or the name of a property. -/
  | item (key : List Char)
  | slice (low high : Option Int64)
  deriving Repr, DecidableEq, Inhabited

/-- A way into a block. -/
structure Path where
  root : Root
  steps : List Accessor
  deriving Repr, DecidableEq, Inhabited

/-- Why a path cannot be read. -/
inductive PathError where
  | unknownRoot (root : List Char)
  | emptyProperty
  | unclosed
  | badBound (bound : List Char)
  | unexpected (rest : List Char)
  deriving Repr, DecidableEq, Inhabited

/-- The reason as it is told in a note. -/
def PathError.reason : PathError → String
  | .unknownRoot root => "unknown root " ++ String.ofList root
  | .emptyProperty => "empty property name"
  | .unclosed => "unclosed ["
  | .badBound bound =>
    "slice bound " ++ Text.quote (String.ofList bound) ++ " is not an integer"
  | .unexpected rest => "unexpected " ++ Text.quote (String.ofList rest)

/-- A character that ends a name in a path. -/
def endsName (c : Char) : Bool := c == '.' || c == '['

/-- A bound of a slice, which may be left out. -/
def readBound (cs : List Char) : Except PathError (Option Int64) :=
  if cs.isEmpty then .ok none
  else
    match Decimal.readInt minSigned64 maxSigned64 cs with
    | some i => .ok (some (Int64.ofInt i))
    | none => .error (.badBound cs)

/-- The step in brackets: a slice if it has a colon. -/
def readBracket (cs : List Char) : Except PathError Accessor :=
  let cs := Text.trimChars cs
  match Text.cutAt ':' cs with
  | some (low, high) => do
    let low ← readBound (Text.trimChars low)
    let high ← readBound (Text.trimChars high)
    return .slice low high
  | none => .ok (.item (Text.unquote cs))

/-- The steps of a path; the first argument bounds their number. -/
def readSteps : Nat → List Char → Except PathError (List Accessor)
  | 0, _ => .ok []
  | fuel + 1, cs =>
    match cs with
    | [] => .ok []
    | '.' :: rest =>
      let key := rest.takeWhile fun c => !endsName c
      if key.isEmpty then .error .emptyProperty
      else do
        let steps ← readSteps fuel (rest.dropWhile fun c => !endsName c)
        return .property (String.ofList key) :: steps
    | '[' :: rest =>
      match Text.cutAt ']' rest with
      | none => .error .unclosed
      | some (inside, rest) => do
        let step ← readBracket inside
        let steps ← readSteps fuel rest
        return step :: steps
    | rest => .error (.unexpected rest)

/-- Where a path with this beginning starts. -/
def Root.ofName? (cs : List Char) : Option Root :=
  if cs = "#block_name".toList then some .blockName
  else if cs = "#block_states".toList then some .blockStates
  else if cs = "#block_entity_data".toList then some .entityData
  else none

/-- Reads a path. -/
def Path.parse (cs : List Char) : Except PathError Path :=
  let name := cs.takeWhile fun c => !endsName c
  match Root.ofName? name with
  | none => .error (.unknownRoot name)
  | some root => do
    let steps ← readSteps cs.length (cs.dropWhile fun c => !endsName c)
    return ⟨root, steps⟩

/-- The value at which a path starts. -/
def Root.value (b : Block) : Root → Json
  | .blockName => .str b.shortName
  | .blockStates => b.statesJson
  | .entityData => (b.entity.map Json.obj).getD .null

/-- The position that a bound of a slice stands for, in a list of `length` items. -/
def sliceBound (length default : Nat) : Option Int64 → Nat
  | none => default
  | some b =>
    if b.toInt < 0 then length - b.toInt.natAbs else Nat.min b.toInt.toNat length

/-- The items between two bounds. -/
def sliceList {β : Type} (items : List β) (low high : Option Int64) : List β :=
  let a := sliceBound items.length 0 low
  let b := sliceBound items.length items.length high
  (items.drop a).take (b - a)

/-- The part of a text or an array between two bounds. -/
def sliceOf (low high : Option Int64) : Json → Json
  | .str s => .str (String.ofList (sliceList s.toList low high))
  | .arr items => .arr (sliceList items low high)
  | _ => .null

/-- The item at a position of an array or a text, or the property of an object. -/
def itemOf (key : List Char) (j : Json) : Json :=
  match j, Decimal.readNatUpTo maxUnsigned64 key with
  | .arr items, some i => items[i]?.getD .null
  | .str s, some i => (s.toList[i]?.map fun c => Json.str (String.ofList [c])).getD .null
  | j, _ => (j.get? (String.ofList key)).getD .null

/-- One step. -/
def Accessor.apply (j : Json) : Accessor → Json
  | .property key => (j.get? key).getD .null
  | .item key => itemOf key j
  | .slice low high => sliceOf low high j

/-- The value at the end of a path. -/
def Path.resolve (b : Block) (p : Path) : Json :=
  p.steps.foldl Accessor.apply (p.root.value b)

/-- The text of a value in running text: strings without quotes, and nothing for `null`. -/
def valueText? : Json → Option String
  | .null => none
  | .str s => some s
  | j => some j.compact

end BlockModels.Placeholder
