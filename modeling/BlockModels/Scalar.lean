import BlockModels.Bounds
import BlockModels.Decimal.Layout

/-!
# Scalars

Everything that is measured (positions, sizes, angles, texture coordinates, opacities) is a number
of some type `α` with the operations of `Scalar`. The library runs on floating-point numbers, where
these are the IEEE operations in the order in which the definitions apply them. Laws of the geometry
that hold in exact arithmetic are stated over the rationals, for the same definitions.

Comparisons follow IEEE: a number that is not equal to itself (`Scalar.isNaN`) is not below, above
or equal to any number.
-/

namespace BlockModels

/-- Numbers with the operations that geometry and colour need. -/
class Scalar (α : Type) extends Add α, Sub α, Mul α, Div α, Neg α, BEq α, LT α, LE α where
  decLt (a b : α) : Decidable (a < b)
  decLe (a b : α) : Decidable (a ≤ b)
  ofNat : Nat → α
  floor : α → α
  ceil : α → α
  /-- The nearest integer, a half away from zero. -/
  round : α → α
  /-- The integer part, brought into the range from zero to `limit`. -/
  clampNat (limit : Nat) : α → Nat
  /-- The least whole number that is not below the square root of a whole number. -/
  ceilSqrt : Nat → Nat
  isFinite : α → Bool
  text : Decimal.Layout → α → String

namespace Scalar

variable {α : Type} [Scalar α]

instance : DecidableLT α := decLt

instance : DecidableLE α := decLe

instance (priority := low) : Zero α := ⟨ofNat 0⟩

instance (priority := low) : One α := ⟨ofNat 1⟩

/-- A whole number. -/
def ofInt : Int → α
  | .ofNat n => ofNat n
  | .negSucc n => -ofNat (n + 1)

/-- A number that is not even equal to itself. -/
def isNaN (a : α) : Bool := !(a == a)

/-- The smaller of two numbers; one that is not a number gives way to the other. -/
def min (a b : α) : α := if isNaN a then b else if b < a then b else a

/-- The greater of two numbers; one that is not a number gives way to the other. -/
def max (a b : α) : α := if isNaN a then b else if a < b then b else a

/-- The number brought between two bounds. -/
def clamp (low high a : α) : α := if a < low then low else if high < a then high else a

/-- The text of a number in a JSON text. -/
def json (a : α) : String := text .json a

/-- The integer part, within the range of eight bits. -/
def toU8 (a : α) : UInt8 := UInt8.ofNat (clampNat 255 a)

end Scalar

/-- Floating-point numbers. -/
instance : Scalar Float where
  decLt := Float.decLt
  decLe := Float.decLe
  ofNat := Float.ofNat
  floor := Binary64.floor
  ceil := Binary64.ceil
  round := Binary64.round
  clampNat limit x := Nat.min limit x.toUInt64.toNat
  ceilSqrt n := Nat.min maxUnsigned32 (Binary64.ceil (Float.ofNat n).sqrt).toUInt64.toNat
  isFinite := Float.isFinite
  text l x := l.write x

/-- The least number from `k` on whose square is not below `n`, if it is one of the next `fuel`. -/
def leastRoot (n : Nat) : Nat → Nat → Nat
  | 0, k => k
  | fuel + 1, k => if n ≤ k * k then k else leastRoot n fuel (k + 1)

/-- Rational numbers: exact arithmetic. -/
instance : Scalar Rat where
  decLt a b := inferInstanceAs (Decidable (a < b))
  decLe a b := inferInstanceAs (Decidable (a ≤ b))
  ofNat n := (n : Rat)
  floor x := (x.floor : Rat)
  ceil x := (x.ceil : Rat)
  round x := if x < 0 then ((x - 1 / 2).ceil : Rat) else ((x + 1 / 2).floor : Rat)
  clampNat limit x := Nat.min limit x.floor.toNat
  ceilSqrt n := leastRoot n n 0
  isFinite _ := true
  text _ x := toString x.num ++ "/" ++ toString x.den

end BlockModels
