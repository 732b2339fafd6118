import BlockModels.Bounds
import BlockModels.Json.Basic
import BlockModels.Decimal.Reading

/-!
# Reading JSON texts

`Json.parse?` reads a text that holds one value and nothing else. A floating-point literal is read
from its first digits, as many as fit 64 bits, which are then multiplied or divided by a power of
ten once: the result is the nearest number whenever the digits and the power are exact, and at most
a few units off otherwise.

Three things are well formed but have no value, and become `Json.unreadable`: a literal beyond the
range of floating-point numbers, a string with a surrogate on its own, as a value or as the name of
a member, and an array or object in which 127 others lie around.
-/

namespace BlockModels.Json

/-- Blanks between tokens. -/
def isSpace (c : Char) : Bool := c == ' ' || c == '\n' || c == '\t' || c == '\r'

/-- The text after leading blanks. -/
def skipSpaces (cs : List Char) : List Char := cs.dropWhile isSpace

/-! ## Numbers -/

/-- Appends digits to a number while it fits 64 bits; the digits left over. -/
def appendDigits (n : Nat) : List Char → Nat × List Char
  | [] => (n, [])
  | c :: rest =>
    let m := n * 10 + (c.toNat - '0'.toNat)
    if m ≤ maxUnsigned64 then appendDigits m rest else (n, c :: rest)

/-- Scales a number by a power of ten, in steps that are themselves floating-point numbers. -/
def scaleFloat (x : Float) (exponent : Int) : Nat → Float
  | 0 => x
  | fuel + 1 =>
    if exponent.natAbs ≤ 308 then
      let power := Float.ofScientific 1 false exponent.natAbs
      if 0 ≤ exponent then x * power else x / power
    else if x == Float.ofNat 0 then x
    else if 0 ≤ exponent then Float.ofNat 1 / Float.ofNat 0
    else scaleFloat (x / Float.ofScientific 1 false 308) (exponent + 308) fuel

/-- The float written with these digits before and behind the point and this exponent. -/
def floatOf (whole fraction : List Char) (exponent : Int) : Float :=
  let (n, dropped) := appendDigits 0 whole
  let (n, left) := appendDigits n fraction
  let taken := fraction.length - left.length
  scaleFloat (Float.ofNat n) (exponent + Int.ofNat dropped.length - Int.ofNat taken) 4

/-- The value of a floating-point literal with a sign, unless it is too large. -/
def floatLiteral (negative : Bool) (x : Float) : Json :=
  if x.isFinite then .float (if negative then -x else x) else .unreadable

/-- The value of a literal without fraction and exponent. -/
def integerLiteral (negative : Bool) (whole : List Char) : Json :=
  let n := Decimal.natOfDigits whole
  if negative then
    if n = 0 ∨ -(Int.ofNat n) < minSigned64 then floatLiteral true (floatOf whole [] 0)
    else .int (-(Int.ofNat n))
  else if n ≤ maxUnsigned64 then .int (Int.ofNat n)
  else floatLiteral false (floatOf whole [] 0)

/-- The exponent part of a literal, if one follows. -/
def exponentPart? (cs : List Char) : Option (Option Int × List Char) :=
  match cs with
  | c :: rest =>
    if c == 'e' || c == 'E' then
      let (negative, rest) := Decimal.splitSign rest
      let ds := rest.takeWhile Char.isDigit
      if ds.isEmpty then none
      else
        let n := Int.ofNat (Decimal.natOfDigits ds)
        some (some (if negative then -n else n), rest.dropWhile Char.isDigit)
    else some (none, cs)
  | [] => some (none, [])

/-- A number literal: no leading zeros, and digits on both sides of a point. -/
def number? (cs : List Char) : Option (Json × List Char) :=
  let (negative, cs) := match cs with
    | '-' :: rest => (true, rest)
    | _ => (false, cs)
  let whole := cs.takeWhile Char.isDigit
  let rest := cs.dropWhile Char.isDigit
  if whole.isEmpty || (whole.head? == some '0' && whole.length != 1) then none
  else
    let (fraction, rest, pointed) := match rest with
      | '.' :: r => (r.takeWhile Char.isDigit, r.dropWhile Char.isDigit, true)
      | _ => ([], rest, false)
    if pointed && fraction.isEmpty then none
    else
      match exponentPart? rest with
      | none => none
      | some (none, rest) =>
        if pointed then some (floatLiteral negative (floatOf whole fraction 0), rest)
        else some (integerLiteral negative whole, rest)
      | some (some e, rest) => some (floatLiteral negative (floatOf whole fraction e), rest)

/-! ## Strings -/

/-- The value of a hexadecimal digit. -/
def hexDigit? (c : Char) : Option Nat :=
  if c.isDigit then some (c.toNat - '0'.toNat)
  else if 'a' ≤ c ∧ c ≤ 'f' then some (c.toNat - 'a'.toNat + 10)
  else if 'A' ≤ c ∧ c ≤ 'F' then some (c.toNat - 'A'.toNat + 10)
  else none

/-- The code unit of four hexadecimal digits. -/
def hexUnit? (a b c d : Char) : Option Nat := do
  let a ← hexDigit? a
  let b ← hexDigit? b
  let c ← hexDigit? c
  let d ← hexDigit? d
  return ((a * 16 + b) * 16 + c) * 16 + d

/-- The character of an escape with one letter. -/
def letterEscape? : Char → Option Char
  | '"' => some '"'
  | '\\' => some '\\'
  | '/' => some '/'
  | 'b' => some '\x08'
  | 'f' => some '\x0c'
  | 'n' => some '\n'
  | 'r' => some '\r'
  | 't' => some '\t'
  | _ => none

/-- The characters of a string, if they are all known. -/
abbrev Characters := Option (List Char)

/-- A character, or none that is known, before others. -/
def Characters.cons (c : Option Char) (cs : Characters) : Characters :=
  match c, cs with
  | some c, some cs => some (c :: cs)
  | _, _ => none

/-- A string after its opening quote: the characters, and the text after the closing quote. Code
units of two surrogates make one character; the characters of a string with a surrogate on its own
are not known. -/
def stringBody? : List Char → Option (Characters × List Char)
  | [] => none
  | '"' :: rest => some (some [], rest)
  | '\\' :: 'u' :: a :: b :: c :: d :: rest =>
    match hexUnit? a b c d with
    | none => none
    | some unit =>
      if 0xD800 ≤ unit ∧ unit ≤ 0xDBFF then
        match rest with
        | '\\' :: 'u' :: a :: b :: c :: d :: after =>
          match hexUnit? a b c d with
          | none => none
          | some low =>
            let whole := if 0xDC00 ≤ low ∧ low ≤ 0xDFFF then
              some (Char.ofNat (0x10000 + (unit - 0xD800) * 0x400 + (low - 0xDC00))) else none
            (stringBody? after).map fun (cs, rest) => (.cons whole cs, rest)
        | rest => (stringBody? rest).map fun (_, rest) => (none, rest)
      else
        let whole := if 0xDC00 ≤ unit ∧ unit ≤ 0xDFFF then none else some (Char.ofNat unit)
        (stringBody? rest).map fun (cs, rest) => (.cons whole cs, rest)
  | '\\' :: c :: rest =>
    match letterEscape? c with
    | none => none
    | some c => (stringBody? rest).map fun (cs, rest) => (.cons (some c) cs, rest)
  | c :: rest =>
    if c.toNat < 0x20 ∨ c = '\\' then none
    else (stringBody? rest).map fun (cs, rest) => (.cons (some c) cs, rest)

/-- The string of some characters. -/
def stringOf (cs : Characters) : Json :=
  match cs with
  | some cs => .str (String.ofList cs)
  | none => .unreadable

/-- The object of some members, unless the name of one is not known. -/
def objectOf (members : List (Characters × Json)) : Json :=
  match members.mapM fun (k, j) => k.map fun k => (String.ofList k, j) with
  | some members => .obj members
  | none => .unreadable

/-! ## Values -/

mutual

/-- One value and the text after it. The first argument bounds the number of steps, the second is
the depth of nesting that may still have a value. -/
def value? : Nat → Nat → List Char → Option (Json × List Char)
  | 0, _, _ => none
  | fuel + 1, depth, cs =>
    let nested (j : Json) := if depth = 0 then .unreadable else j
    match skipSpaces cs with
    | 'n' :: 'u' :: 'l' :: 'l' :: rest => some (.null, rest)
    | 't' :: 'r' :: 'u' :: 'e' :: rest => some (.bool true, rest)
    | 'f' :: 'a' :: 'l' :: 's' :: 'e' :: rest => some (.bool false, rest)
    | '"' :: rest => (stringBody? rest).map fun (s, rest) => (stringOf s, rest)
    | '[' :: rest =>
      match skipSpaces rest with
      | ']' :: rest => some (nested (.arr []), rest)
      | rest => (items? fuel (depth - 1) rest).map fun (js, rest) => (nested (.arr js), rest)
    | '\x7b' :: rest =>
      match skipSpaces rest with
      | '\x7d' :: rest => some (nested (.obj []), rest)
      | rest => (members? fuel (depth - 1) rest).map fun (ms, rest) => (nested (objectOf ms), rest)
    | rest => number? rest

/-- The items of an array up to its closing bracket. -/
def items? : Nat → Nat → List Char → Option (List Json × List Char)
  | 0, _, _ => none
  | fuel + 1, depth, cs =>
    match value? fuel depth cs with
    | none => none
    | some (j, rest) =>
      match skipSpaces rest with
      | ',' :: rest => (items? fuel depth rest).map fun (js, rest) => (j :: js, rest)
      | ']' :: rest => some ([j], rest)
      | _ => none

/-- The members of an object up to its closing brace. -/
def members? : Nat → Nat → List Char → Option (List (Characters × Json) × List Char)
  | 0, _, _ => none
  | fuel + 1, depth, cs =>
    match skipSpaces cs with
    | '"' :: rest =>
      match stringBody? rest with
      | none => none
      | some (k, rest) =>
        match skipSpaces rest with
        | ':' :: rest =>
          match value? fuel depth rest with
          | none => none
          | some (j, rest) =>
            match skipSpaces rest with
            | ',' :: rest =>
              (members? fuel depth rest).map fun (ms, rest) => ((k, j) :: ms, rest)
            | '\x7d' :: rest => some ([(k, j)], rest)
            | _ => none
        | _ => none
    | _ => none

end

/-- The deepest nesting of arrays and objects that has a value. -/
def maxDepth : Nat := 127

/-- Reads a text as one value. Each step takes at least one character, so twice the length of the
text bounds their number. -/
def parse? (text : String) : Option Json :=
  let cs := text.toList
  match value? (2 * cs.length + 1) maxDepth cs with
  | some (j, rest) => if (skipSpaces rest).isEmpty then some j else none
  | none => none

end BlockModels.Json
