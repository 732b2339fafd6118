import BlockModels.Space.Direction

/-!
# Cuboids and their merging

A cuboid takes over another that continues it: the two agree on two axes, and one begins where the
other ends on the third. `mergeCuboids` adds cuboids one by one to a list in which no two continue
each other. A cuboid that finds its continuation in the list, or continues one, takes that one out,
and the grown cuboid starts over.
-/

namespace BlockModels

/-- A box along the axes. -/
structure Cuboid (α : Type) where
  pos : Vec3 α
  size : Vec3 α
  deriving Repr, DecidableEq, Inhabited

namespace Cuboid

variable {α : Type} [Scalar α]

/-- The product of the three extents. -/
def volume (c : Cuboid α) : α := Scalar.ofNat 1 * c.size.x * c.size.y * c.size.z

/-- Where the cuboid ends on an axis. -/
def stop (c : Cuboid α) (axis : Axis) : α := c.pos.get axis + c.size.get axis

/-- The two cuboids have the same place and extent on an axis. -/
def alignedOn (c d : Cuboid α) (axis : Axis) : Bool :=
  c.pos.get axis == d.pos.get axis && c.size.get axis == d.size.get axis

/-- `d` begins where `c` ends on the axis, and the two are aligned on the others. -/
def continuedBy (c d : Cuboid α) (axis : Axis) : Bool :=
  c.alignedOn d axis.others.1 && c.alignedOn d axis.others.2 && c.stop axis == d.pos.get axis

/-- `c` extended by `d` along the axis. -/
def extend (c d : Cuboid α) (axis : Axis) : Cuboid α :=
  { c with size := c.size.set axis (c.size.get axis + d.size.get axis) }

/-- `c` grown by `d`, if `d` continues it on some axis. -/
def absorb? (c d : Cuboid α) : Option (Cuboid α) :=
  (Axis.all.find? (c.continuedBy d)).map (c.extend d)

/-- The first cuboid in a list that continues `c` or is continued by it, joined with it, and the
list without that one. -/
def joinFirst? (c : Cuboid α) : List (Cuboid α) → Option (Cuboid α × List (Cuboid α))
  | [] => none
  | d :: rest =>
    match (c.absorb? d).or (d.absorb? c) with
    | some grown => some (grown, rest)
    | none => (joinFirst? c rest).map fun (grown, rest) => (grown, d :: rest)

/-- Adds a cuboid to a list, joined with whatever it can be joined with. Each joining takes one from
the list, so its length bounds their number. -/
def addTo : Nat → Cuboid α → List (Cuboid α) → List (Cuboid α)
  | 0, c, merged => merged ++ [c]
  | fuel + 1, c, merged =>
    match joinFirst? c merged with
    | some (grown, rest) => addTo fuel grown rest
    | none => merged ++ [c]

/-- Adds a cuboid to a list in which no two can be joined. -/
def add (merged : List (Cuboid α)) (c : Cuboid α) : List (Cuboid α) :=
  addTo merged.length c merged

end Cuboid

/-- Joins cuboids as long as one continues another. -/
def mergeCuboids {α : Type} [Scalar α] (cuboids : List (Cuboid α)) : List (Cuboid α) :=
  cuboids.foldl Cuboid.add []

end BlockModels
