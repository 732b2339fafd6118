import BlockModels.Text.Blank
import BlockModels.Text.Word
import BlockModels.Text.Fold

/-!
# Classes of characters

A class is built from listed ranges and from the classes that have a letter of their own, by the
operations on sets. `CharClass.contains` tells whether a character is in a class, and
`CharClass.ranges` lists the ranges of which the class consists in the end.

For the latter a set of numbers is given by its *borders*: the numbers, in order, at which
membership changes. All operations on two sets are then the same walk along the borders of both.
-/

namespace BlockModels

/-- A class of characters. -/
inductive CharClass where
  | listed (ranges : List (Char × Char))
  | digit
  | word
  | blank
  | union (a b : CharClass)
  | both (a b : CharClass)
  | without (a b : CharClass)
  /-- The characters of exactly one of two classes. -/
  | either (a b : CharClass)
  | complement (a : CharClass)
  | anyCase (a : CharClass)
  /-- A class in brackets of its own. -/
  | nested (a : CharClass)
  deriving Repr, DecidableEq, Inhabited

namespace CharClass

/-- The class without characters. -/
def none : CharClass := .listed []

/-- The class of the characters from one to another. -/
def range (low high : Char) : CharClass := .listed [(low, high)]

/-- The class of one character. -/
def single (c : Char) : CharClass := range c c

/-- The characters that are the same as `c` but for their case, `c` among them. -/
def caseVariants (c : Char) : List Char :=
  let folded := Text.fold c
  c :: folded :: Text.foldRuns.filterMap fun (first, last, step, distance) =>
    let n := (Int.ofNat folded.toNat - distance).toNat
    if Text.foldIn n [(first, last, step, distance)] != n then some (Char.ofNat n) else Option.none

/-- Membership in a class. -/
def contains : CharClass → Char → Bool
  | .listed ranges, c => ranges.any fun r => decide (r.1 ≤ c) && decide (c ≤ r.2)
  | .digit, c => Text.isDecimalDigit c
  | .word, c => Text.isWord c
  | .blank, c => Text.isBlank c
  | .union a b, c => a.contains c || b.contains c
  | .both a b, c => a.contains c && b.contains c
  | .without a b, c => a.contains c && !b.contains c
  | .either a b, c => a.contains c != b.contains c
  | .complement a, c => !a.contains c
  | .anyCase a, c => (caseVariants c).any a.contains
  | .nested a, c => a.contains c

end CharClass

/-! ## Borders -/

/-- A set of numbers: those at which membership changes, in order, first from outside to inside. -/
abbrev Borders := List Nat

namespace Borders

/-- The borders of ranges in order that do not touch. -/
def ofRanges (ranges : List (Nat × Nat)) : Borders := ranges.flatMap fun r => [r.1, r.2 + 1]

/-- The ranges between borders; the last one may go up to the greatest number of all. -/
def toRanges (greatest : Nat) : Borders → List (Nat × Nat)
  | [] => []
  | [low] => if low ≤ greatest then [(low, greatest)] else []
  | low :: high :: rest => (low, high - 1) :: toRanges greatest rest

/-- The number is inside, if the numbers before the first border are. -/
def inside (before : Bool) (n : Nat) : Borders → Bool
  | [] => before
  | x :: rest => if n < x then before else inside (!before) n rest

/-- Puts a border between two sides, where they differ. -/
def between (before after : Bool) (x : Nat) (rest : Borders) : Borders :=
  if before = after then rest else x :: rest

/-- Combines two sets: a number is inside as the operation says of being inside the first and the
second set. `a` and `b` tell whether the numbers before the first borders are inside. -/
def combine (op : Bool → Bool → Bool) (a b : Bool) : Borders → Borders → Borders
  | [], [] => []
  | x :: xs, [] => between (op a b) (op (!a) b) x (combine op (!a) b xs [])
  | [], y :: ys => between (op a b) (op a (!b)) y (combine op a (!b) [] ys)
  | x :: xs, y :: ys =>
    if x < y then between (op a b) (op (!a) b) x (combine op (!a) b xs (y :: ys))
    else if y < x then between (op a b) (op a (!b)) y (combine op a (!b) (x :: xs) ys)
    else between (op a b) (op (!a) (!b)) x (combine op (!a) (!b) xs ys)
termination_by xs ys => xs.length + ys.length

/-- The numbers in either set. -/
def union (s t : Borders) : Borders := combine or false false s t

/-- The numbers that are not in the set. -/
def complement : Borders → Borders
  | 0 :: rest => rest
  | s => 0 :: s

/-- The set of the listed numbers. -/
def ofList (numbers : List Nat) : Borders :=
  (numbers.eraseDups.mergeSort fun x y => decide (x ≤ y)).foldr (fun n s => union [n, n + 1] s) []

/-- The code points that fold to another one, each with its folded form. -/
def foldedPairs : List (Nat × Nat) :=
  Text.foldRuns.flatMap fun (first, last, step, distance) =>
    (List.range ((last - first) / step + 1)).map fun i =>
      let n := first + i * step
      (n, (Int.ofNat n + distance).toNat)

/-- The code points that differ from one of the set only in case. -/
def anyCase (s : Borders) : Borders :=
  let folded := union s (ofList ((foldedPairs.filter fun e => inside false e.1 s).map (·.2)))
  union folded (ofList ((foldedPairs.filter fun e => inside false e.2 folded).map (·.1)))

end Borders

namespace CharClass

/-- The borders of a class of code points. -/
def borders : CharClass → Borders
  | .listed ranges => ranges.foldl (fun s r => s.union [r.1.toNat, r.2.toNat + 1]) []
  | .digit => Borders.union [0x30, 0x3A] (.ofRanges Text.digitRanges)
  | .word =>
    Borders.union [0x30, 0x3A, 0x41, 0x5B, 0x5F, 0x60, 0x61, 0x7B] (.ofRanges Text.wordRanges)
  | .blank => .ofRanges Text.blankRanges
  | .union a b => .combine or false false a.borders b.borders
  | .both a b => .combine and false false a.borders b.borders
  | .without a b => .combine (fun x y => x && !y) false false a.borders b.borders
  | .either a b => .combine bne false false a.borders b.borders
  | .complement a => a.borders.complement
  | .anyCase a => a.borders.anyCase
  | .nested a => a.borders

/-- The ranges of code points of which a class consists, in order and apart from each other. -/
def ranges (c : CharClass) : List (Nat × Nat) := c.borders.toRanges 0x10FFFF

end CharClass

end BlockModels
