import BlockModels.Pattern.Basic

/-!
# Limits of patterns

A written pattern is refused when its parts are nested too deep, or when the machine that matches it
takes too much space.

The machine reads the bytes of a text. Each state has the same space, and so has each transition of
a class and each branch of a choice. A counted repetition is written out, so that the counts
multiply. There are two machines, one that reads from the left and takes note of groups, and one
that reads from the right (`Direction`); both have to fit.
-/

namespace BlockModels

/-! ## Nesting -/

namespace CharClass

/-- How deep brackets and operations are nested in a class. A row of items counts once: `row` tells
whether it was counted before. -/
def depth (row : Bool) : CharClass → Nat
  | .listed _ | .digit | .word | .blank => 0
  | .union a b =>
    if a = CharClass.none then b.depth false
    else (!row).toNat + max (a.depth true) (b.depth false)
  | .both a b | .without a b | .either a b => 1 + max (a.depth false) (b.depth false)
  | .complement a | .anyCase a => a.depth row
  | .nested a => 1 + a.depth false

end CharClass

namespace Pattern

/-- The kind of a row of patterns. -/
inductive Row where
  | elements
  | alternatives
  deriving DecidableEq, Repr

/-- How deep groups, classes and repetitions are nested in a pattern. A row counts once: `row` tells
which kind was counted before. -/
def depth (row : Option Row) : Pattern → Nat
  | .seq .empty b => b.depth none
  | .seq a b => (row != some .elements).toNat + max (a.depth (some .elements)) (b.depth none)
  | .alt a b =>
    (row != some .alternatives).toNat + max (a.depth none) (b.depth (some .alternatives))
  | .group _ p => 1 + p.depth none
  | .repeated p _ _ => 1 + p.depth none
  | .char c => c.depth false
  | .empty | .anchor _ => 0

/-- How deep a pattern may be nested. -/
def maxDepth : Nat := 250

/-! ## Space -/

/-- The space of a state. -/
def stateSpace : Nat := 32

/-- The space of a transition of a class. -/
def transitionSpace : Nat := 8

/-- The space of a branch of a choice. -/
def branchSpace : Nat := 4

/-- How a machine reads a text. -/
inductive Direction where
  | fromLeft
  | fromRight
  deriving DecidableEq, Repr

/-- The bytes of a code point. -/
def bytesOf (n : Nat) : List Nat :=
  let low (k : Nat) := 0x80 + n / Nat.pow 64 k % 64
  if n < 0x80 then [n]
  else if n < 0x800 then [0xC0 + n / 64, low 0]
  else if n < 0x10000 then [0xE0 + n / 4096, low 1, low 0]
  else [0xF0 + n / 262144, low 2, low 1, low 0]

/-- Parts of a range in order, in each of which every byte runs by itself: the last bytes that are
cut off at either end, and the whole blocks between. A block is `unit` numbers long, at the next of
the remaining levels 64 times as many. -/
def blocks (unit : Nat) : Nat → Nat → Nat → List (Nat × Nat)
  | 0, first, last => [(first, last)]
  | levels + 1, first, last =>
    if first / unit = last / unit then [(first, last)]
    else
      let low := (first + unit - 1) / unit * unit
      let high := (last + 1) / unit * unit
      (if first < low then [(first, low - 1)] else [])
        ++ (if low < high then blocks (64 * unit) levels low (high - 1) else [])
        ++ (if high ≤ last then [(high, last)] else [])

/-- The code points that can be written as bytes: the least and the greatest one, and how many bytes
follow the first. -/
def byteLengths : List (Nat × Nat × Nat) :=
  [(0, 0x7F, 0), (0x80, 0x7FF, 1), (0x800, 0xD7FF, 2), (0xE000, 0xFFFF, 2), (0x10000, 0x10FFFF, 3)]

/-- The sequences of byte ranges that write the code points of a range. -/
def byteSequences (range : Nat × Nat) : List (List (Nat × Nat)) :=
  byteLengths.flatMap fun (least, greatest, levels) =>
    let first := max range.1 least
    let last := min range.2 greatest
    if first ≤ last then
      (blocks 64 levels first last).map fun (a, b) => (bytesOf a).zip (bytesOf b)
    else []

/-- How many elements two lists have in common at the beginning. -/
def sharedLength {α : Type} [DecidableEq α] : List α → List α → Nat
  | a :: as, b :: bs => if a = b then 1 + sharedLength as bs else 0
  | _, _ => 0

/-- The space of sequences after one before them: each is a branch, with a state for every byte
that it does not share with the one before. -/
def sequencesSpace : List (Nat × Nat) → List (List (Nat × Nat)) → Nat
  | _, [] => 0
  | before, s :: rest =>
    branchSpace + (s.length - sharedLength before s) * stateSpace + sequencesSpace s rest

/-- The space of a class. A single character has a state for each byte. The machine that reads from
the left shares what it can, so that of a class beyond ASCII only the two ends are counted. -/
def classSpace (d : Direction) (c : CharClass) : Nat :=
  match c.ranges with
  | [(a, b)] =>
    if a = b then (bytesOf a).length * stateSpace else rangesSpace [(a, b)]
  | ranges => rangesSpace ranges
where
  /-- The space of ranges. -/
  rangesSpace (ranges : List (Nat × Nat)) : Nat :=
    2 * stateSpace +
      (if ranges.all fun r => r.2 < 0x80 then ranges.length * transitionSpace
      else
        match d with
        | .fromLeft => 0
        | .fromRight => sequencesSpace [] (ranges.flatMap byteSequences))

/-- All texts of the pattern are empty. -/
def isZeroWidth : Pattern → Bool
  | .char _ => false
  | .group _ p => p.isZeroWidth
  | .seq a b | .alt a b => b.isZeroWidth && a.isZeroWidth
  | .repeated p _ most => p.isZeroWidth || most = some 0
  | .empty | .anchor _ => true

/-- The pattern has an empty text. -/
def hasEmpty : Pattern → Bool
  | .char _ => false
  | .group _ p => p.hasEmpty
  | .seq a b => b.hasEmpty && a.hasEmpty
  | .alt a b => a.hasEmpty || b.hasEmpty
  | .repeated p least _ => p.hasEmpty || least = 0
  | .empty | .anchor _ => true

/-- There is nothing in the pattern for which a machine needs a state in a row of elements. -/
def isVoid : Pattern → Bool
  | .empty => true
  | .group noted p => !noted && p.isVoid
  | .seq a b => b.isVoid && a.isVoid
  | .repeated _ _ most => most = some 0
  | _ => false

/-- The class of a pattern that describes one character. -/
def oneOf? : Pattern → Option CharClass
  | .char c => some c
  | .group noted p => if noted then none else p.oneOf?
  | .seq .empty b => b.oneOf?
  | .alt a b => do return .union (← a.oneOf?) (← b.oneOf?)
  | _ => none

/-- The space of a repetition, given the space of one copy. Beyond the least count each copy is a
choice; a repetition without an upper bound ends in a loop. -/
def repetitionSpace (copy : Nat) (copyHasEmpty : Bool) : Nat → Option Nat → Nat
  | 0, none => copy + (if copyHasEmpty then 3 * stateSpace + 4 * branchSpace
      else stateSpace + 2 * branchSpace)
  | least, none => least * copy + stateSpace + 2 * branchSpace
  | least, some most =>
    if least = most then most * copy
    else most * copy + stateSpace + (most - least) * (stateSpace + 2 * branchSpace)

/-- The space of a pattern. In a row of alternatives each one is a branch; the choice between them
and their common end are counted with the whole row. -/
def space (d : Direction) (inRow : Bool) : Pattern → Nat
  | .alt a b =>
    match if inRow then none else (Pattern.alt a b).oneOf? with
    | some c => classSpace d c
    | none => (if inRow then 0 else 2 * stateSpace) + a.space d true + b.space d true
  | .seq a b => branch + if a.isVoid then b.space d false else
      if b.isVoid then a.space d false else a.space d false + b.space d false
  | .group noted p =>
    branch + p.space d false + (if noted && d = .fromLeft then 2 * stateSpace else 0)
  | .repeated p least most =>
    branch +
      if p.isZeroWidth then
        repetitionSpace (p.space d false) true (min least 1) (some (min (most.getD 1) 1))
      else repetitionSpace (p.space d false) p.hasEmpty least most
  | .char c => branch + classSpace d c
  | .empty | .anchor _ => branch + stateSpace
where
  /-- The space of a branch in a row of alternatives. -/
  branch : Nat := if inRow then branchSpace else 0

/-- The space that a machine may take. -/
def maxSpace : Nat := 10 * 1024 * 1024

/-- The pattern is neither nested too deep nor too large. -/
def isWithinLimits (p : Pattern) : Bool :=
  decide (p.depth none ≤ maxDepth)
    && [Direction.fromLeft, .fromRight].all fun d => decide (p.space d false ≤ maxSpace)

end Pattern

end BlockModels
