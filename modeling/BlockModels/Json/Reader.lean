import BlockModels.Bounds
import BlockModels.Json.Basic

/-!
# Reading values out of JSON

A reader turns a JSON value into a value of another type, or refuses it. Nothing is converted on
the way except whole numbers to floating-point ones. A record is read by the names of its fields,
or, from an array, by their positions; unknown members are ignored and known ones may not be
repeated. Where a value may take several forms, all of it is read before the form is chosen
(`Json.whole?`), and then even an unknown member has to be readable.
-/

namespace BlockModels.Json

variable {β : Type}

/-- A string. -/
def string? : Json → Option String
  | .str s => some s
  | _ => none

/-- A truth value. -/
def bool? : Json → Option Bool
  | .bool b => some b
  | _ => none

/-- A number as a float; whole numbers are rounded to the nearest. -/
def float? : Json → Option Float
  | .int i => some (Float.ofInt i)
  | .float x => some x
  | _ => none

/-- A whole number between bounds. -/
def int? (low high : Int) : Json → Option Int
  | .int i => if low ≤ i ∧ i ≤ high then some i else none
  | _ => none

/-- A whole number of 64 bits with sign. -/
def int64? (j : Json) : Option Int64 :=
  (j.int? minSigned64 maxSigned64).map Int64.ofInt

/-- A natural number up to a bound. -/
def nat? (high : Nat) (j : Json) : Option Nat :=
  (j.int? 0 high).map Int.toNat

/-- What the reader accepts, if every part of the value can be read. -/
def whole? (read : Json → Option β) (j : Json) : Option β := j.canonical?.bind fun _ => read j

/-- `null`, or what the reader accepts. -/
def orNull? (read : Json → Option β) : Json → Option (Option β)
  | .null => some none
  | j => (read j).map some

/-- Every item of an array. -/
def list? (read : Json → Option β) : Json → Option (List β)
  | .arr items => items.mapM read
  | _ => none

/-- Every member of an object, by name; of members with one name the last. -/
def table? (read : Json → Option β) : Json → Option (Table β)
  | .obj members =>
    (members.mapM fun (m : String × Json) => (read m.2).map fun v => (m.1, v)).map Table.ofList
  | _ => none

/-- An array of strings as a set. -/
def nameSet? (j : Json) : Option NameSet := (j.list? string?).map NameSet.ofNames

/-- An array of two items, each with a reader of its own. -/
def pair? {γ : Type} (first : Json → Option β) (second : Json → Option γ) :
    Json → Option (β × γ)
  | .arr [a, b] =>
    match first a, second b with
    | some a, some b => some (a, b)
    | _, _ => none
  | _ => none

/-- The members of a record that were found, by the names of the fields. -/
structure Fields where
  found : List (String × Json)

/-- The fields of a record, from an object by name and from an array by position. -/
def fields? (names : List String) : Json → Option Fields
  | .obj members =>
    let known := members.filter fun m => names.contains m.1
    if (known.map (·.1)).Nodup then some ⟨known⟩ else none
  | .arr items => if items.length ≤ names.length then some ⟨names.zip items⟩ else none
  | _ => none

namespace Fields

/-- A field that has to be there. -/
def required? (f : Fields) (name : String) (read : Json → Option β) : Option β :=
  (Table.lookup name f.found).bind read

/-- A field with a value for when it is missing. -/
def withDefault? (f : Fields) (name : String) (read : Json → Option β) (missing : β) : Option β :=
  match Table.lookup name f.found with
  | some j => read j
  | none => some missing

/-- A field that may be missing or `null`. -/
def optional? (f : Fields) (name : String) (read : Json → Option β) : Option (Option β) :=
  f.withDefault? name (orNull? read) none

end Fields

end BlockModels.Json
