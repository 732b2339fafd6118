import BlockModels.Scalar

/-!
# Vectors

Triples for positions and sizes in space, pairs for positions and sizes on a texture. All operations
work on each component alone.
-/

namespace BlockModels

/-- A position, an extent or three angles in space. -/
structure Vec3 (α : Type) where
  x : α
  y : α
  z : α
  deriving Repr, DecidableEq, Inhabited

/-- A position or an extent on a texture. -/
structure Vec2 (α : Type) where
  x : α
  y : α
  deriving Repr, DecidableEq, Inhabited

namespace Vec3

variable {α β γ : Type}

/-- The same component three times. -/
def fill (a : α) : Vec3 α := ⟨a, a, a⟩

/-- A function on every component. -/
def map (f : α → β) (v : Vec3 α) : Vec3 β := ⟨f v.x, f v.y, f v.z⟩

/-- A function on every pair of components. -/
def zipWith (f : α → β → γ) (v : Vec3 α) (w : Vec3 β) : Vec3 γ :=
  ⟨f v.x w.x, f v.y w.y, f v.z w.z⟩

/-- The components in order. -/
def toList (v : Vec3 α) : List α := [v.x, v.y, v.z]

/-- Three components make a vector. -/
def ofList? : List α → Option (Vec3 α)
  | [x, y, z] => some ⟨x, y, z⟩
  | _ => none

instance [Add α] : Add (Vec3 α) := ⟨zipWith (· + ·)⟩

instance [Sub α] : Sub (Vec3 α) := ⟨zipWith (· - ·)⟩

instance [BEq α] : BEq (Vec3 α) := ⟨fun v w => v.x == w.x && v.y == w.y && v.z == w.z⟩

/-- Every component multiplied by a number. -/
def scale [Mul α] (s : α) (v : Vec3 α) : Vec3 α := v.map (· * s)

end Vec3

namespace Vec2

variable {α β γ : Type}

/-- The same component twice. -/
def fill (a : α) : Vec2 α := ⟨a, a⟩

/-- A function on every component. -/
def map (f : α → β) (v : Vec2 α) : Vec2 β := ⟨f v.x, f v.y⟩

/-- A function on every pair of components. -/
def zipWith (f : α → β → γ) (v : Vec2 α) (w : Vec2 β) : Vec2 γ := ⟨f v.x w.x, f v.y w.y⟩

/-- The components in order. -/
def toList (v : Vec2 α) : List α := [v.x, v.y]

/-- Two components make a pair. -/
def ofList? : List α → Option (Vec2 α)
  | [x, y] => some ⟨x, y⟩
  | _ => none

instance [Add α] : Add (Vec2 α) := ⟨zipWith (· + ·)⟩

instance [Sub α] : Sub (Vec2 α) := ⟨zipWith (· - ·)⟩

instance [BEq α] : BEq (Vec2 α) := ⟨fun v w => v.x == w.x && v.y == w.y⟩

end Vec2

end BlockModels
