import BlockModels.Catalog.Basic

/-!
# What the states of a block decide

How a block is turned and which variant of its textures it shows. Both are looked up in several
state tables in a fixed order; the first table that has anything to say for the states of the
block decides alone.
-/

namespace BlockModels

variable {α : Type}

/-- The sum of the rotations of all matching states. -/
def StateTable.rotationSum? [Scalar α] (t : StateTable (Vec3 α)) (b : Block) : Option (Vec3 α) :=
  match t.contributions b with
  | [] => none
  | rots => some (rots.foldl (· + ·) (Vec3.fill 0))

/-- How a block is turned: by the general rules, those of its shape, those of its name, or those of
the first pattern that its name matches. -/
def RotationRules.resolve [Scalar α] (r : RotationRules α) (b : Block) (shape : String) :
    Option (Vec3 α) :=
  let name := b.shortName
  let tables := [some r.everywhere, r.byShape.get? shape, r.byName.get? name,
    findPattern r.byPattern name]
  (tables.filterMap id).findSome? fun t => t.rotationSum? b

/-- The first contribution, or the sum of all. -/
def VariantTable.evaluate (t : VariantTable) (b : Block) : Option Int64 :=
  match t.states.contributions b with
  | [] => none
  | first :: rest => some (if t.additive then rest.foldl (· + ·) first else first)

/-- The variant of a block that no rule decides. -/
def unknownVariant : Int64 := -1

/-- Which texture variant a block shows: its fixed one, unless that is to be ignored, or that of its
name, of the first pattern that its name matches, of its shape, or of the general rules. -/
def VariantRules.resolve (r : VariantRules) (b : Block) (shape : String)
    (ignoreEigenvariant : Bool) : Int64 :=
  let name := b.shortName
  match if ignoreEigenvariant then none else r.eigenvariants.get? name with
  | some variant => variant
  | none =>
    let tables := [r.byName.get? name, findPattern r.byPattern name, r.byShape.get? shape,
      some r.everywhere]
    ((tables.filterMap id).findSome? fun t => t.evaluate b).getD unknownVariant

end BlockModels
