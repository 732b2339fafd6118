import BlockModels.Pattern.CharClass

/-!
# Name patterns

A pattern describes a set of texts: characters of a class one after the other, alternatives and
repetitions, tied to the start or the end of the text where it says so. A name matches a pattern
when some part of it is in the set.

To match a text, the pattern is first turned into *moves* in this text (`Pattern.moves`), which say
from which positions a character leads on and at which positions an anchor holds. `Move.reach` takes
a set of positions to the set of positions that the moves lead to, all at once. It is defined by
recursion; a repetition without an upper bound is followed until no new position appears, for which
the number of positions is enough steps.
-/

namespace BlockModels

/-- What is before and behind a position in a text. -/
abbrev Surroundings := Option Char × Option Char

/-- A condition on a position in a text. -/
inductive Anchor where
  | startOfText
  | endOfText
  | startOfLine
  | endOfLine
  | wordBoundary
  | noWordBoundary
  | wordStart
  | wordEnd
  /-- There is no word character before. -/
  | noWordBefore
  /-- There is no word character behind. -/
  | noWordBehind
  deriving Repr, DecidableEq, Inhabited

/-- The condition holds at a position. -/
def Anchor.holds : Anchor → Surroundings → Bool
  | .startOfText, (before, _) => before.isNone
  | .endOfText, (_, behind) => behind.isNone
  | .startOfLine, (before, _) => before.all (· == '\n')
  | .endOfLine, (_, behind) => behind.all (· == '\n')
  | .wordBoundary, (before, behind) => before.any Text.isWord != behind.any Text.isWord
  | .noWordBoundary, (before, behind) => before.any Text.isWord == behind.any Text.isWord
  | .wordStart, (before, behind) => !before.any Text.isWord && behind.any Text.isWord
  | .wordEnd, (before, behind) => before.any Text.isWord && !behind.any Text.isWord
  | .noWordBefore, (before, _) => !before.any Text.isWord
  | .noWordBehind, (_, behind) => !behind.any Text.isWord

/-- A set of texts. Elements one after the other and alternatives are in a row: the first operand of
`seq`, and the second one of `alt`, is the rest of the row. A group is a row of its own, and of some
groups a matcher takes note where they begin and end. -/
inductive Pattern where
  | empty
  | char (c : CharClass)
  | anchor (a : Anchor)
  | group (noted : Bool) (p : Pattern)
  | seq (a b : Pattern)
  | alt (a b : Pattern)
  | repeated (p : Pattern) (least : Nat) (most : Option Nat)
  deriving Repr, DecidableEq, Inhabited

/-! ## Positions -/

/-- A set of positions in a text, as a number: the bit of each position in the set is one. -/
abbrev Positions := Nat

/-- The positions in a text by what surrounds them, with what is before the first one. -/
def surroundings (before : Option Char) : List Char → List Surroundings
  | [] => [(before, none)]
  | c :: rest => (before, some c) :: surroundings (some c) rest

/-- The positions at which a condition holds. -/
def Positions.satisfying (places : List Surroundings) (test : Surroundings → Bool) : Positions :=
  places.foldr (fun place s => 2 * s + (test place).toNat) 0

/-- The positions before each character of a text, for each character once. -/
abbrev CharPositions := List (Char × Positions)

/-- The positions before the characters of a text. -/
def CharPositions.ofText (text : List Char) (places : List Surroundings) : CharPositions :=
  text.eraseDups.map fun c => (c, .satisfying places fun place => place.2 == some c)

/-- The positions before the characters of a class. -/
def CharPositions.ofClass (table : CharPositions) (c : CharClass) : Positions :=
  table.foldl (fun s e => if c.contains e.1 then s ||| e.2 else s) 0

/-! ## Moves -/

/-- Moves from positions to positions in one text. -/
inductive Move where
  /-- Stays, at one of these positions. -/
  | stay (places : Positions)
  /-- Goes on by one, from one of these positions. -/
  | advance (places : Positions)
  | andThen (a b : Move)
  | orElse (a b : Move)
  | repeated (m : Move) (least : Nat) (most : Option Nat)
  deriving Repr, DecidableEq, Inhabited

namespace Move

/-- Applies a function a number of times, and stops early when it changes nothing. -/
def iterate (f : Positions → Positions) : Nat → Positions → Positions
  | 0, s => s
  | n + 1, s =>
    let t := f s
    if t == s then s else iterate f n t

/-- The positions that up to `n` further steps lead to. -/
def closure (f : Positions → Positions) : Nat → Positions → Positions
  | 0, s => s
  | n + 1, s =>
    let t := s ||| f s
    if t == s then s else closure f n t

/-- The positions to which moves lead from a set of positions in a text of a length. -/
def reach (length : Nat) : Move → Positions → Positions
  | .stay places, s => s &&& places
  | .advance places, s => 2 * (s &&& places)
  | .andThen a b, s => reach length b (reach length a s)
  | .orElse a b, s => reach length a s ||| reach length b s
  | .repeated m least most, s =>
    let s := iterate (reach length m) least s
    match most with
    | none => closure (reach length m) (length + 1) s
    | some most => closure (reach length m) (most - least) s

end Move

/-! ## Matching -/

namespace Pattern

/-- The moves of a pattern in a text. -/
def moves (table : CharPositions) (places : List Surroundings) : Pattern → Move
  | .empty => .stay (.satisfying places fun _ => true)
  | .char c => .advance (table.ofClass c)
  | .anchor a => .stay (.satisfying places a.holds)
  | .group _ p => moves table places p
  | .seq a b => .andThen (moves table places a) (moves table places b)
  | .alt a b => .orElse (moves table places a) (moves table places b)
  | .repeated p least most => .repeated (moves table places p) least most

/-- Some part of the text is in the set of the pattern. -/
def isMatch (p : Pattern) (text : String) : Bool :=
  let places := surroundings none text.toList
  let table := CharPositions.ofText text.toList places
  (p.moves table places).reach text.length (.satisfying places fun _ => true) != 0

end Pattern

end BlockModels
