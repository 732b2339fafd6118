/-!
# Binary64 numbers, read exactly

`Binary64.ofFloat` takes a floating-point number apart into a sign and a dyadic magnitude
`mantissa · 2 ^ exponent`, so that whatever is asked of the number afterwards (its digits, its
integer part) is asked of two integers. The roundings to an integer are done on that form, with
one rule each for what happens to the part after the binary point.
-/

namespace BlockModels

/-- A floating-point number as integers: the two exceptional kinds, or a sign and a magnitude
`mantissa · 2 ^ exponent`. Zero has mantissa zero and keeps its sign. -/
inductive Binary64 where
  | nan
  | infinite (negative : Bool)
  | finite (negative : Bool) (mantissa : Nat) (exponent : Int)
  deriving Repr, DecidableEq

namespace Binary64

/-- The leading bit of a mantissa, which the encoding leaves out: 2 to the power of 52. -/
def hiddenBit : Nat := 4503599627370496

/-- The number of exponents that the encoding has. -/
def exponentCount : Nat := 2048

/-- The fields of the 64-bit encoding: a sign bit, eleven bits of biased exponent and 52 bits of
fraction, with an implicit leading one unless the exponent field is zero. -/
def ofFloat (x : Float) : Binary64 :=
  let bits := x.toBits.toNat
  let negative := decide (exponentCount * hiddenBit ≤ bits)
  let exponent := bits / hiddenBit % exponentCount
  let fraction := bits % hiddenBit
  if exponent + 1 = exponentCount then
    if fraction = 0 then .infinite negative else .nan
  else if exponent = 0 then .finite negative fraction (-1074)
  else .finite negative (hiddenBit + fraction) (Int.ofNat exponent - 1075)

/-- The number without its sign, cut to an integer, and what was cut off over which whole. -/
def splitMagnitude (mantissa : Nat) (exponent : Int) : Nat × Nat × Nat :=
  if 0 ≤ exponent then (mantissa * Nat.pow 2 exponent.toNat, 0, 1)
  else
    let one := Nat.pow 2 (-exponent).toNat
    (mantissa / one, mantissa % one, one)

/-- A float with the sign and the magnitude of a natural number; a negative zero stays one. -/
def signed (negative : Bool) (magnitude : Nat) : Float :=
  if negative then -(Float.ofNat magnitude) else Float.ofNat magnitude

/-- Rounds to an integer: `up negative whole rest one` says whether the magnitude is to grow when
`rest` parts of `one` were cut off. Exceptional values and integers stay as they are. -/
def roundWith (up : Bool → Nat → Nat → Bool) (x : Float) : Float :=
  match ofFloat x with
  | .finite negative mantissa exponent =>
    let (whole, rest, one) := splitMagnitude mantissa exponent
    if rest = 0 then x
    else signed negative (if up negative rest one then whole + 1 else whole)
  | _ => x

/-- The greatest integer that is not above the number. -/
def floor : Float → Float := roundWith fun negative _ _ => negative

/-- The least integer that is not below the number. -/
def ceil : Float → Float := roundWith fun negative _ _ => !negative

/-- The nearest integer; a half goes away from zero. -/
def round : Float → Float := roundWith fun _ rest one => decide (one ≤ 2 * rest)

end Binary64

end BlockModels
