import BlockModels.Table

/-!
# JSON values

Whole numbers and floating-point numbers are different values: `1` and `1.0` are kept apart, as the
data distinguishes them. An object is kept as it was written, member by member; `Json.canonical?`
orders the members by name and keeps the last of those with the same name.

Not every text that is well formed has a value: a number may be too large, a string may hold half a
character, and arrays may be nested too deep. Such a part is `unreadable`. It does no harm where
nobody reads it, in a field that is not known.
-/

namespace BlockModels

/-- A JSON value. A number without fraction and exponent that fits 64 bits, signed or unsigned, is
an `int`; every other number is a `float`. What is well formed and yet has no value is
`unreadable`. -/
inductive Json where
  | null
  | bool (b : Bool)
  | int (i : Int)
  | float (x : Float)
  | str (s : String)
  | arr (items : List Json)
  | obj (members : List (String × Json))
  | unreadable
  deriving Inhabited

namespace Json

/-- The member of an object under a name. -/
def get? (k : String) : Json → Option Json
  | .obj members => Table.lookup k members
  | _ => none

mutual

/-- The value with the members of every object in order and without repetition; none if some part
of it is unreadable. -/
def canonical? : Json → Option Json
  | .unreadable => none
  | .arr items => (canonicalItems? items).map .arr
  | .obj members => (canonicalMembers? members).map fun ms => .obj (Table.ofList ms).entries
  | j => some j

/-- `canonical?` over the items of an array. -/
def canonicalItems? : List Json → Option (List Json)
  | [] => some []
  | j :: rest =>
    match canonical? j, canonicalItems? rest with
    | some j, some rest => some (j :: rest)
    | _, _ => none

/-- `canonical?` over the members of an object. -/
def canonicalMembers? : List (String × Json) → Option (List (String × Json))
  | [] => some []
  | (k, j) :: rest =>
    match canonical? j, canonicalMembers? rest with
    | some j, some rest => some ((k, j) :: rest)
    | _, _ => none

end

end Json

end BlockModels
