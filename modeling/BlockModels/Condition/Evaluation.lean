import BlockModels.Condition.Term
import BlockModels.Diagnostic

/-!
# What conditions say of a block

A condition holds when all terms of one of its groups hold; groups are separated by `||`, terms by
`&&`. What cannot be read or has no meaning for the block holds, and a note is taken: a part of a
model that is there by mistake is seen, one that is missing is not. Terms behind the one that
decides are not looked at.
-/

namespace BlockModels.Condition

/-- Two numbers compared. A number that is not equal to itself differs from all and is in no
order. -/
def Comparison.ofFloats : Comparison → Float → Float → Bool
  | .eq, a, b => a == b
  | .ne, a, b => !(a == b)
  | .ge, a, b => decide (b ≤ a)
  | .le, a, b => decide (a ≤ b)
  | .gt, a, b => decide (b < a)
  | .lt, a, b => decide (a < b)

/-- Two texts compared, for which there is no order. -/
def Comparison.ofTexts? : Comparison → List Char → List Char → Option Bool
  | .eq, a, b => some (a == b)
  | .ne, a, b => some (a != b)
  | _, _, _ => none

/-- A value compared with a literal: as numbers if both are, else as texts. -/
def compareValue? (value : StateValue) (op : Comparison) (literal : List Char) : Option Bool :=
  match value.number?, Decimal.readFloat literal with
  | some n, some x => some (op.ofFloats (Float.ofInt n.toInt) x)
  | _, _ => op.ofTexts? value.text.toList literal

/-- The value that a term speaks of. -/
def stored? (b : Block) (entity : Bool) (name : String) : Option StateValue :=
  if entity then (b.entityValue? name).bind StateValue.ofJson? else b.state? name

/-- The value after its modifier, if there is one. -/
def modified (m : Option Modifier) (value : Option StateValue) :
    Except TermError (Option StateValue) :=
  match m, value with
  | none, value => .ok value
  | some (.orElse n), value => .ok (some (value.getD (.int n)))
  | some (.mask _), none => .ok none
  | some (.mask n), some value =>
    match value.number? with
    | some v => .ok (some (.int (v &&& n)))
    | none => .error .maskedText

/-- What a term comes to for a block. -/
inductive Outcome where
  | holds (value : Bool)
  | malformed (error : TermError)
  | missing (entity : Bool) (name : String)
  deriving Repr, DecidableEq, Inhabited

/-- What a term that was read comes to. -/
def Term.outcome (b : Block) : Term → Outcome
  | .copied negated => .holds (b.copied != negated)
  | .compare entity name modifier op literal =>
    match modified modifier (stored? b entity name) with
    | .error e => .malformed e
    | .ok none => .missing entity name
    | .ok (some value) =>
      match compareValue? value op literal with
      | some r => .holds r
      | none => .malformed .orderedText

/-- What the text of a term comes to. -/
def termOutcome (b : Block) (term : List Char) : Outcome :=
  match Term.parse term with
  | .error e => .malformed e
  | .ok t => t.outcome b

/-- The truth of a term; a term without meaning holds. -/
def Outcome.value : Outcome → Bool
  | .holds r => r
  | .malformed _ => true
  | .missing _ _ => true

/-- The note about a term without meaning. -/
def Outcome.notes (b : Block) (term : List Char) : Outcome → List Diagnostic
  | .holds _ => []
  | .malformed e =>
    [⟨.warning, .malformedExpression, "Malformed condition term " ++
      Text.quote (String.ofList term) ++ " on " ++ b.name ++ ": " ++ e.reason⟩]
  | .missing entity name =>
    [⟨.error, .missingState, "Condition " ++ Text.quote (String.ofList term) ++
      " references missing " ++ (if entity then "entity property" else "state") ++ " " ++ name ++
      " on " ++ b.name⟩]

/-- The truth of one term. -/
def evaluateTerm (b : Block) (term : List Char) : Noted Bool :=
  let term := Text.trimChars term
  let outcome := termOutcome b term
  ⟨outcome.value, outcome.notes b term⟩

/-- The groups of a condition, each a list of terms. -/
def groups (expression : List Char) : List (List (List Char)) :=
  (Text.splitAtPairs '|' expression).map (Text.splitAtPairs '&')

/-- The truth of a condition. -/
def evaluate (b : Block) (expression : String) : Noted Bool :=
  let cs := expression.toList
  if (Text.trimChars cs).isEmpty then do
    Noted.warn .malformedExpression ("Empty condition on " ++ b.name)
    return true
  else (groups cs).anyM fun terms => terms.allM (evaluateTerm b)

end BlockModels.Condition
