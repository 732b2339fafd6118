import BlockModels.Table
import BlockModels.Texture.Reference

/-!
# Registries

A registry lists things in the order in which they were first seen, each once: what has the key of a
thing already there is not added. A thing is known by its position, which never changes.
-/

namespace BlockModels

/-- Things in the order of their first insertion, and the position of each key. -/
structure Registry (β : Type) where
  items : Array β := #[]
  positions : Table Nat := .empty
  deriving Inhabited

namespace Registry

variable {β : Type} [Keyed β]

/-- The registry without anything in it. -/
def empty : Registry β := {}

/-- The number of things. -/
def size (r : Registry β) : Nat := r.items.size

/-- The thing at a position. -/
def get? (r : Registry β) (i : Nat) : Option β := r.items[i]?

/-- The things in order. -/
def toList (r : Registry β) : List β := r.items.toList

/-- The position of a thing, which is added at the end unless its key is there. -/
def insert (r : Registry β) (b : β) : Nat × Registry β :=
  let key := Keyed.key b
  match r.positions.get? key with
  | some i => (i, r)
  | none => (r.size, ⟨r.items.push b, r.positions.insert key r.size⟩)

/-- The positions of things that are inserted in order. -/
def insertAll (r : Registry β) : List β → List Nat × Registry β
  | [] => ([], r)
  | b :: rest =>
    let (i, r) := r.insert b
    let (is, r) := r.insertAll rest
    (i :: is, r)

end Registry

end BlockModels
