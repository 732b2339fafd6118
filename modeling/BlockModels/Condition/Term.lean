import BlockModels.Bounds
import BlockModels.Block
import BlockModels.Text.Cut
import BlockModels.Text.Quoted
import BlockModels.Decimal.Reading

/-!
# Terms of conditions

A condition is made of terms joined by `&&` and `||`. A term asks whether the block stands in for
its host, or compares a state of the block, or a property of its entity data, with a literal.
Before the comparison the value can be given a default with `??` or be masked with `&`.

`Term.parse` reads a term; the three ways in which it can fail are `TermError`s.
-/

namespace BlockModels.Condition

/-- How two values are compared. -/
inductive Comparison where
  | eq
  | ne
  | ge
  | le
  | gt
  | lt
  deriving Repr, DecidableEq, Inhabited

/-- The written form of a comparison. -/
def Comparison.symbol : Comparison → List Char
  | .eq => ['=', '=']
  | .ne => ['!', '=']
  | .ge => ['>', '=']
  | .le => ['<', '=']
  | .gt => ['>']
  | .lt => ['<']

/-- The comparison that a text begins with; those of two characters come before those of one. -/
def Comparison.opening? : List Char → Option (Comparison × List Char)
  | '=' :: '=' :: rest => some (.eq, rest)
  | '!' :: '=' :: rest => some (.ne, rest)
  | '>' :: '=' :: rest => some (.ge, rest)
  | '<' :: '=' :: rest => some (.le, rest)
  | '>' :: rest => some (.gt, rest)
  | '<' :: rest => some (.lt, rest)
  | _ => none

/-- What is done to a value before it is compared. -/
inductive Modifier where
  /-- The value, or this number if there is none. -/
  | orElse (n : Int64)
  /-- The bits that the value shares with this number. -/
  | mask (n : Int64)
  deriving Repr, DecidableEq, Inhabited

/-- One term of a condition. -/
inductive Term where
  /-- The block stands in for its host, or, negated, does not. -/
  | copied (negated : Bool)
  /-- A state, or a property of the entity data, compared with a literal. -/
  | compare (entity : Bool) (name : String) (modifier : Option Modifier) (op : Comparison)
      (literal : List Char)
  deriving Repr, DecidableEq, Inhabited

/-- Why a term cannot be read or has no meaning. -/
inductive TermError where
  | noComparison
  | noName
  | badOperand
  | maskedText
  | orderedText
  deriving Repr, DecidableEq, Inhabited

/-- The reason as it is told in a note. -/
def TermError.reason : TermError → String
  | .noComparison => "no comparison operator"
  | .noName => "missing state name"
  | .badOperand => "operand is not an integer"
  | .maskedText => "bitwise AND on a non-numeric value"
  | .orderedText => "ordering comparison on a non-numeric value"

/-- The question whether the block stands in for its host. -/
def copiedWord : List Char := "#copied_via_copy_block".toList

/-- The first comparison in a text, with what stands before and behind it. -/
def splitComparison? : List Char → Option (List Char × Comparison × List Char)
  | [] => none
  | c :: rest =>
    match Comparison.opening? (c :: rest) with
    | some (op, behind) => some ([], op, behind)
    | none => (splitComparison? rest).map fun (before, found) => (c :: before, found)

/-- A whole number of 64 bits with sign. -/
def int64? (cs : List Char) : Option Int64 :=
  (Decimal.readInt minSigned64 maxSigned64 cs).map Int64.ofInt

/-- A name and the modifier behind it, whose number may not be one. -/
def splitModifier (cs : List Char) : List Char × Option (Option Modifier) :=
  match Text.cutAtPair '?' cs with
  | some (name, n) =>
    (Text.trimChars name, some ((int64? (Text.trimChars n)).map .orElse))
  | none =>
    match Text.cutAt '&' cs with
    | some (name, n) => (Text.trimChars name, some ((int64? (Text.trimChars n)).map .mask))
    | none => (Text.trimChars cs, none)

/-- Reads a term without blanks around it. -/
def Term.parse (cs : List Char) : Except TermError Term :=
  if cs = copiedWord then .ok (.copied false)
  else if cs = '!' :: copiedWord then .ok (.copied true)
  else
    match splitComparison? cs with
    | none => .error .noComparison
    | some (left, op, right) =>
      let left := Text.trimChars left
      let (entity, subject) := match Text.behind? "entity.".toList left with
        | some rest => (true, rest)
        | none => (false, left)
      let (name, modifier) := splitModifier subject
      if name.isEmpty then .error .noName
      else
        match modifier with
        | some none => .error .badOperand
        | some (some m) => .ok (.compare entity (String.ofList name) (some m) op (literal right))
        | none => .ok (.compare entity (String.ofList name) none op (literal right))
where
  /-- The literal of a comparison: without blanks around it, and without quotes around what is
  left. -/
  literal (right : List Char) : List Char := Text.unquote (Text.trimChars right)

end BlockModels.Condition
