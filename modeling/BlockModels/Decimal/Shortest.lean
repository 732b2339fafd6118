import BlockModels.Decimal.Binary64

/-!
# The shortest decimal that reads back

A binary64 number stands for every real that rounds to it. `Decimal.shortest` looks for the
decimal with the fewest digits among those reals, and for the nearest one of that length. The
search is over decimal grids: on the grid of `n` digits only the two neighbours of the number
have to be tried, since an interval around the number that holds a grid point holds one of them.
Everything is exact arithmetic on natural numbers.
-/

namespace BlockModels.Decimal

/-- A positive decimal `value · 10 ^ exponent`. -/
structure Digits where
  value : Nat
  exponent : Int
  deriving Repr, DecidableEq

/-- A quotient of natural numbers, the form in which powers of two and of ten meet. -/
structure Quotient where
  num : Nat
  den : Nat

namespace Quotient

/-- The magnitude `m · 2 ^ q`. -/
def dyadic (m : Nat) (q : Int) : Quotient :=
  if 0 ≤ q then ⟨m * Nat.pow 2 q.toNat, 1⟩ else ⟨m, Nat.pow 2 (-q).toNat⟩

/-- The quotient divided by `10 ^ k`. -/
def shift (r : Quotient) (k : Int) : Quotient :=
  if 0 ≤ k then ⟨r.num, r.den * Nat.pow 10 k.toNat⟩
  else ⟨r.num * Nat.pow 10 (-k).toNat, r.den⟩

end Quotient

/-- The number of decimal digits of `n`; zero has none. -/
def digitCount (n : Nat) : Nat :=
  if n = 0 then 0 else (Nat.toDigits 10 n).length

/-- The least `k` up to `fuel` with `num · 10 ^ k ≥ den`. -/
def leadingZeros (num den : Nat) : Nat → Nat
  | 0 => 0
  | fuel + 1 => if den ≤ num then 0 else leadingZeros (num * 10) den fuel + 1

/-- The exponent of the first decimal digit: `10 ^ e ≤ num / den < 10 ^ (e + 1)`. -/
def leadingExponent (r : Quotient) : Int :=
  if r.den ≤ r.num then Int.ofNat (digitCount (r.num / r.den)) - 1
  else -(Int.ofNat (leadingZeros r.num r.den 400))

/-- The reals that round to a number, scaled so that `low`, `value` and `high` are whole: the
middle is the number, and the ends belong to the interval when `closed` holds. -/
structure Interval where
  low : Quotient
  value : Quotient
  high : Quotient
  closed : Bool

/-- Half a unit in the last place on each side, and half of that below a power of two, where the
spacing changes. The ends round to an even mantissa. -/
def Interval.around (m : Nat) (q : Int) : Interval :=
  let below := if m = Binary64.hiddenBit && decide (-1074 < q) then 4 * m - 1 else 4 * m - 2
  { low := .dyadic below (q - 2)
    value := .dyadic (4 * m) (q - 2)
    high := .dyadic (4 * m + 2) (q - 2)
    closed := m % 2 == 0 }

/-- The decimal `d · 10 ^ k` lies in the interval. -/
def Interval.contains (i : Interval) (d : Nat) (k : Int) : Bool :=
  let low := i.low.shift k
  let high := i.high.shift k
  if i.closed then decide (low.num ≤ d * low.den) && decide (d * high.den ≤ high.num)
  else decide (low.num < d * low.den) && decide (d * high.den < high.num)

/-- The neighbour of the number on the grid of multiples of `10 ^ k` that lies in the interval;
of two, the nearer, and the even one when they are equally near. -/
def Interval.onGrid (i : Interval) (k : Int) : Option Nat :=
  let v := i.value.shift k
  let d := v.num / v.den
  let rest := v.num % v.den
  match i.contains d k, i.contains (d + 1) k with
  | true, true =>
    if 2 * rest < v.den || (2 * rest == v.den && d % 2 == 0) then some d else some (d + 1)
  | true, false => some d
  | false, true => some (d + 1)
  | false, false => none

/-- Trailing zeros move into the exponent. -/
def Digits.strip (d : Digits) : Nat → Digits
  | 0 => d
  | fuel + 1 =>
    if d.value != 0 && d.value % 10 == 0 then
      Digits.strip ⟨d.value / 10, d.exponent + 1⟩ fuel
    else d

/-- Tries the grids of `n`, `n + 1`, … digits. -/
def Interval.search (i : Interval) (lead : Int) (n : Nat) : Nat → Digits
  | 0 => ⟨0, 0⟩
  | fuel + 1 =>
    let k := lead + 1 - Int.ofNat n
    match i.onGrid k with
    | some d => if d = 0 then i.search lead (n + 1) fuel else ⟨d, k⟩
    | none => i.search lead (n + 1) fuel

/-- The shortest decimal that rounds to `m · 2 ^ q`, for `m` a positive mantissa of a binary64
number. Seventeen digits always suffice. -/
def shortest (m : Nat) (q : Int) : Digits :=
  let i := Interval.around m q
  (i.search (leadingExponent i.value) 1 18).strip 20

end BlockModels.Decimal
