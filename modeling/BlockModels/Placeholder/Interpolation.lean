import BlockModels.Bounds
import BlockModels.Placeholder.Path
import BlockModels.Diagnostic

/-!
# Filling in placeholders

A template text consists of literal pieces and placeholders in `$\x7b…\x7d`. A placeholder stands
for an entry of one of the cube's arrays, chosen by a state or a property of the block, or for the
value at the end of a path into the block. Behind `??` it may have a default, which is used when
there is no value or an empty one; a default in `SET_WHOLE_STRING(…)` takes the place of the whole
text.

`pieces` cuts a text, `substitute` gives the value of one placeholder, and `interpolate` puts the
values in place, in order, up to the first default for the whole text. What was put in is not looked
at again.
-/

namespace BlockModels.Placeholder

/-- The lists from which placeholders choose. -/
abbrev Arrays := Table (List Json)

/-- A part of a template text. -/
inductive Piece where
  | text (cs : List Char)
  | placeholder (cs : List Char)
  /-- A placeholder without end, with its opening mark. -/
  | unclosed (cs : List Char)
  deriving Repr, DecidableEq, Inhabited

/-- Puts a character in front of a list of pieces. -/
def Piece.consText (c : Char) : List Piece → List Piece
  | .text cs :: rest => .text (c :: cs) :: rest
  | ps => .text [c] :: ps

/-- The pieces of a text; the first argument bounds their number. -/
def piecesUpTo : Nat → List Char → List Piece
  | 0, _ => []
  | _ + 1, [] => []
  | fuel + 1, '$' :: '\x7b' :: rest =>
    match Text.cutAt '\x7d' rest with
    | some (inside, rest) => .placeholder inside :: piecesUpTo fuel rest
    | none => [.unclosed ('$' :: '\x7b' :: rest)]
  | fuel + 1, c :: rest => Piece.consText c (piecesUpTo fuel rest)

/-- The pieces of a text. -/
def pieces (cs : List Char) : List Piece := piecesUpTo cs.length cs

/-- What is put in place of a placeholder. -/
inductive Substitution where
  | value (s : String)
  /-- In place of the whole text. -/
  | wholeText (s : String)
  deriving Repr, DecidableEq, Inhabited

/-- The word before the literal that takes the place of the whole text. -/
def wholeTextWord : List Char := "SET_WHOLE_STRING(".toList

/-- What a default stands for. -/
def defaultOf (cs : List Char) : Substitution :=
  match (Text.behind? wholeTextWord cs).bind (Text.beforeLast? ')') with
  | some literal => .wholeText (String.ofList (Text.unquote (Text.trimChars literal)))
  | none => .value (String.ofList (Text.unquote cs))

/-- A position in an array, given by a value: a natural number, a truth value, or a text that is a
number. -/
def position? : Json → Option Nat
  | .int i => if 0 ≤ i then some i.toNat else none
  | .bool b => some (if b then 1 else 0)
  | .str s => Decimal.readNatUpTo maxUnsigned64 (Text.trimChars s.toList)
  | _ => none

/-- The value that chooses a position: a property of the entity data or a state. -/
def choice? (b : Block) (cs : List Char) : Option Json :=
  match Text.behind? "entity.".toList cs with
  | some key => b.entityValue? (String.ofList key)
  | none => (b.state? (String.ofList cs)).map StateValue.toJson

/-- The entry of an array that an expression `name[choice]` stands for. -/
def arrayValue? (b : Block) (arrays : Option Arrays) (cs : List Char) : Option String := do
  let (name, rest) ← Text.cutAt '[' cs
  let inside ← Text.beforeLast? ']' rest
  let i ← position? (← choice? b (Text.trimChars inside))
  let entries ← (← arrays).get? (String.ofList (Text.trimChars name))
  valueText? (← entries[i]?)

/-- What an expression comes to. -/
inductive Resolution where
  | array (value : Option String)
  | path (value : Option String)
  | malformed (error : PathError)
  | unknown
  deriving Repr, DecidableEq, Inhabited

/-- The value of an expression: an array entry, or the end of a path. -/
def resolution (b : Block) (arrays : Option Arrays) (expression : List Char) : Resolution :=
  match Text.behind? "Array.".toList expression with
  | some rest => .array (arrayValue? b arrays rest)
  | none =>
    if expression.head? = some '#' then
      match Path.parse expression with
      | .ok p => .path (valueText? (p.resolve b))
      | .error e => .malformed e
    else .unknown

/-- A value that is not empty, or else the default, or else nothing and a note. -/
def orDefault (b : Block) (placeholder : List Char) (kind : DiagnosticKind)
    (value : Option String) (fallback : Option (List Char)) : Noted Substitution :=
  match value.filter (!·.isEmpty), fallback with
  | some v, _ => pure (.value v)
  | none, some cs => pure (defaultOf cs)
  | none, none => do
    Noted.warn kind ("Placeholder " ++ Text.quote (String.ofList placeholder) ++
      " resolved to nothing for " ++ b.cacheKey)
    return .value ""

/-- What is put in place of a placeholder. -/
def substitute (b : Block) (arrays : Option Arrays) (placeholder : List Char) :
    Noted Substitution :=
  let (expression, fallback) := match Text.cutAtPair '?' placeholder with
    | some (e, d) => (Text.trimChars e, some (Text.trimChars d))
    | none => (Text.trimChars placeholder, none)
  let quoted := Text.quote (String.ofList placeholder)
  match resolution b arrays expression with
  | .array value => orDefault b placeholder .missingArrayValue value fallback
  | .path value => orDefault b placeholder .missingState value fallback
  | .malformed e => do
    Noted.warn .malformedExpression
      ("Malformed placeholder " ++ quoted ++ " for " ++ b.name ++ ": " ++ e.reason)
    return .value ""
  | .unknown => do
    Noted.warn .malformedExpression ("Unknown placeholder " ++ quoted ++ " for " ++ b.name)
    return .value ""

/-- The text of a list of pieces after what has been put together before. -/
def fill (b : Block) (arrays : Option Arrays) (template done : String) :
    List Piece → Noted String
  | [] => pure done
  | .text cs :: rest => fill b arrays template (done ++ String.ofList cs) rest
  | .unclosed cs :: _ => do
    Noted.warn .malformedExpression
      ("Unclosed placeholder in " ++ Text.quote template ++ " for " ++ b.name)
    return done ++ String.ofList cs
  | .placeholder cs :: rest => do
    match ← substitute b arrays cs with
    | .wholeText s => return s
    | .value s => fill b arrays template (done ++ s) rest

/-- A template text with the values of its placeholders. -/
def interpolate (b : Block) (template : String) (arrays : Option Arrays) : Noted String :=
  fill b arrays template "" (pieces template.toList)

end BlockModels.Placeholder
