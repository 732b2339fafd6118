/-!
# Reading numbers from text

`Decimal.readInt` reads a signed whole number within bounds, `Decimal.readFloat` a decimal number
with optional fraction and exponent, or one of the words for the values without digits. Neither
skips blanks, and neither accepts anything after the number.
-/

namespace BlockModels.Decimal

/-- The value of a run of decimal digits, first digit first. -/
def natOfDigits (ds : List Char) : Nat :=
  ds.foldl (fun n c => n * 10 + (c.toNat - '0'.toNat)) 0

/-- At least one digit and nothing else. -/
def readNat (cs : List Char) : Option Nat :=
  if cs.isEmpty || !cs.all Char.isDigit then none else some (natOfDigits cs)

/-- A leading sign and the rest of the text. -/
def splitSign : List Char → Bool × List Char
  | '+' :: rest => (false, rest)
  | '-' :: rest => (true, rest)
  | cs => (false, cs)

/-- A whole number with an optional sign, refused outside `low ≤ n ≤ high`. -/
def readInt (low high : Int) (cs : List Char) : Option Int :=
  let (negative, ds) := splitSign cs
  (readNat ds).bind fun n =>
    let i := if negative then -(Int.ofNat n) else Int.ofNat n
    if low ≤ i ∧ i ≤ high then some i else none

/-- A whole number without a minus sign, refused above `high`. -/
def readNatUpTo (high : Nat) (cs : List Char) : Option Nat :=
  let ds := match cs with
    | '+' :: rest => rest
    | _ => cs
  (readNat ds).bind fun n => if n ≤ high then some n else none

/-- The float nearest to `mantissa · 10 ^ exponent`. Exponents far outside the range of binary64
are decided by the number of digits alone. -/
def nearestFloat (mantissa : Nat) (exponent : Int) : Float :=
  let lead := exponent + Int.ofNat (Nat.toDigits 10 mantissa).length
  if mantissa = 0 || decide (lead < -400) then Float.ofNat 0
  else if 400 < lead then Float.ofNat 1 / Float.ofNat 0
  else if exponent < 0 then Float.ofScientific mantissa true (-exponent).toNat
  else Float.ofScientific mantissa false exponent.toNat

/-- The exponent part, if there is one: a mark, an optional sign and at least one digit. -/
def readExponent : List Char → Option Int
  | [] => some 0
  | c :: rest =>
    if c == 'e' || c == 'E' then
      let (negative, ds) := splitSign rest
      (readNat ds).map fun n => if negative then -(Int.ofNat n) else Int.ofNat n
    else none

/-- A magnitude: digits with an optional point among, before or behind them, and an exponent. -/
def readMagnitude (cs : List Char) : Option Float :=
  let whole := cs.takeWhile Char.isDigit
  let rest := cs.dropWhile Char.isDigit
  let (fraction, rest) := match rest with
    | '.' :: r => (r.takeWhile Char.isDigit, r.dropWhile Char.isDigit)
    | _ => ([], rest)
  if whole.isEmpty && fraction.isEmpty then none
  else (readExponent rest).map fun e =>
    nearestFloat (natOfDigits (whole ++ fraction)) (e - Int.ofNat fraction.length)

/-- A number, or `inf`, `infinity` or `nan` in any case of letters, with an optional sign. -/
def readFloat (cs : List Char) : Option Float :=
  let (negative, body) := splitSign cs
  let value := match body.map Char.toLower with
    | ['i', 'n', 'f'] | ['i', 'n', 'f', 'i', 'n', 'i', 't', 'y'] =>
      some (Float.ofNat 1 / Float.ofNat 0)
    | ['n', 'a', 'n'] => some (Float.ofNat 0 / Float.ofNat 0)
    | _ => readMagnitude body
  value.map fun x => if negative then -x else x

end BlockModels.Decimal
