import BlockModels.Catalog.Basic

/-!
# Textures of faces, and colours

Which texture key a block has for a face, and how the text of a colour is read.
-/

namespace BlockModels

/-- What a face table has for a face. -/
inductive FaceLookup where
  | found (key : String)
  /-- Nothing was declared for the face; this is the first entry of the table. -/
  | firstDeclared (key : String)
  | missing
  deriving Repr, DecidableEq, Inhabited

/-- The key of a face: its own, for a side face that of `side`, that of `*`, or else the first in
the table. -/
def FaceTable.lookup (t : FaceTable) (face : String) : FaceLookup :=
  match t with
  | .all key => .found key
  | .perFace keys =>
    let side := if (Face.ofName? face).any Face.isSide then keys.get? "side" else none
    match (keys.get? face).or (side.or (keys.get? "*")) with
    | some key => .found key
    | none =>
      match keys.first? with
      | some (_, key) => .firstDeclared key
      | none => .missing

/-- The value of a hexadecimal digit. -/
def hexNibble? (c : Char) : Option Nat :=
  if c.isDigit then some (c.toNat - '0'.toNat)
  else if 'a' ≤ c ∧ c ≤ 'f' then some (c.toNat - 'a'.toNat + 10)
  else if 'A' ≤ c ∧ c ≤ 'F' then some (c.toNat - 'A'.toNat + 10)
  else none

/-- The values of six hexadecimal digits, two by two. -/
def hexChannels? (cs : List Char) : Option (Vec3 Nat) :=
  match cs.mapM hexNibble? with
  | some [a, b, c, d, e, f] => some ⟨a * 16 + b, c * 16 + d, e * 16 + f⟩
  | _ => none

/-- Reads a colour of six hexadecimal digits, with any number of `#` before them and blanks around
them; the channels run from zero to one. -/
def parseColor? {α : Type} [Scalar α] (color : String) : Option (Vec3 α) :=
  let hex := (Text.trimChars color.toList).dropWhile (· == '#')
  (hexChannels? hex).map fun v => v.map fun n => Scalar.ofNat n / Scalar.ofNat 255

end BlockModels
