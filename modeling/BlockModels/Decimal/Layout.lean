import BlockModels.Decimal.Shortest

/-!
# Written forms of a number

The digits of a number are one question, how they are laid out another. A `Layout` is the second:
up to which powers of ten a number is written with a plain decimal point, whether a whole number
keeps a `.0`, how an exponent is signed, and what stands for the values that have no digits. The
layouts in use are `Layout.json`, `Layout.debug` and `Layout.plain`.
-/

namespace BlockModels.Decimal

/-- How digits are laid out. `point lead` says whether a number whose first digit counts
`10 ^ lead` is written with a decimal point rather than an exponent. -/
structure Layout where
  point : Int → Bool
  wholePoint : Bool
  plus : Bool
  nan : String
  infinity : String
  negativeInfinity : String

/-- Numbers inside a JSON text: an exponent below `10 ^ -5` and from `10 ^ 16` on, written with its
sign; what JSON cannot say is `null`. -/
def Layout.json : Layout where
  point lead := decide (-5 ≤ lead) && decide (lead ≤ 15)
  wholePoint := true
  plus := true
  nan := "null"
  infinity := "null"
  negativeInfinity := "null"

/-- Numbers quoted in a message: an exponent below `10 ^ -4` and from `10 ^ 16` on. -/
def Layout.debug : Layout where
  point lead := decide (-4 ≤ lead) && decide (lead ≤ 15)
  wholePoint := true
  plus := false
  nan := "NaN"
  infinity := "inf"
  negativeInfinity := "-inf"

/-- Numbers in running text: never an exponent, and no point on a whole number. -/
def Layout.plain : Layout where
  point _ := true
  wholePoint := false
  plus := false
  nan := "NaN"
  infinity := "inf"
  negativeInfinity := "-inf"

/-- A run of zeros. -/
def zeros (n : Nat) : List Char := List.replicate n '0'

/-- The decimal digits of a natural number, first digit first. -/
def digitsOf (n : Nat) : List Char := Nat.toDigits 10 n

/-- The digits with a decimal point, wherever it falls. -/
def Layout.positional (l : Layout) (ds : List Char) (exponent : Int) : List Char :=
  if 0 ≤ exponent then
    ds ++ zeros exponent.toNat ++ (if l.wholePoint then ['.', '0'] else [])
  else
    let places := (-exponent).toNat
    if places < ds.length then
      ds.take (ds.length - places) ++ '.' :: ds.drop (ds.length - places)
    else '0' :: '.' :: zeros (places - ds.length) ++ ds

/-- One digit before the point, the rest behind it, and the power of ten. -/
def Layout.scientific (l : Layout) (ds : List Char) (lead : Int) : List Char :=
  let exponent := if lead < 0 then '-' :: digitsOf (-lead).toNat
    else (if l.plus then ['+'] else []) ++ digitsOf lead.toNat
  match ds with
  | [] => []
  | [d] => d :: 'e' :: exponent
  | d :: rest => d :: '.' :: rest ++ 'e' :: exponent

/-- A decimal magnitude laid out; zero has the single digit `0`. -/
def Layout.magnitude (l : Layout) (d : Digits) : List Char :=
  if d.value = 0 then l.positional ['0'] 0
  else
    let ds := digitsOf d.value
    let lead := d.exponent + Int.ofNat ds.length - 1
    if l.point lead then l.positional ds d.exponent else l.scientific ds lead

/-- The text of a float in a layout, with the fewest digits that read back. -/
def Layout.write (l : Layout) (x : Float) : String :=
  match Binary64.ofFloat x with
  | .nan => l.nan
  | .infinite negative => if negative then l.negativeInfinity else l.infinity
  | .finite negative m q =>
    let body := l.magnitude (if m = 0 then ⟨0, 0⟩ else shortest m q)
    String.ofList (if negative then '-' :: body else body)

/-- The text of a float with a fixed number of decimal places: the exact binary value is rounded
to the nearest, a tie to the even neighbour. -/
def fixed (places : Nat) (x : Float) : String :=
  match Binary64.ofFloat x with
  | .nan => "NaN"
  | .infinite negative => if negative then "-inf" else "inf"
  | .finite negative m q =>
    let r := (Quotient.dyadic m q).shift (-(Int.ofNat places))
    let d := r.num / r.den
    let rest := r.num % r.den
    let d := if 2 * rest > r.den || (2 * rest == r.den && d % 2 == 1) then d + 1 else d
    let ds := digitsOf d
    let ds := zeros (places + 1 - ds.length) ++ ds
    let body := ds.take (ds.length - places) ++
      (if places = 0 then [] else '.' :: ds.drop (ds.length - places))
    String.ofList (if negative then '-' :: body else body)

end BlockModels.Decimal
