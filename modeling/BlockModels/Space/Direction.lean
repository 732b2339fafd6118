import BlockModels.Space.Vector

/-!
# Faces and axes

The six faces of a cube and the three axes of space. A face is named by the direction in which it
looks: west and east along the first axis, down and up along the second, north and south along the
third, the low side first.
-/

namespace BlockModels

/-- An axis of space. -/
inductive Axis where
  | x
  | y
  | z
  deriving Repr, DecidableEq, Inhabited

/-- A face of a cube. -/
inductive Face where
  | down
  | up
  | north
  | south
  | west
  | east
  deriving Repr, DecidableEq, Inhabited

namespace Axis

/-- The axes in the order of components. -/
def all : List Axis := [.x, .y, .z]

theorem mem_all (axis : Axis) : axis ∈ all := by
  cases axis <;> decide

/-- The position of the axis's component. -/
def index : Axis → Nat
  | .x => 0
  | .y => 1
  | .z => 2

/-- The two other axes in order. -/
def others : Axis → Axis × Axis
  | .x => (.y, .z)
  | .y => (.x, .z)
  | .z => (.x, .y)

/-- The one face that is drawn of a cube without extent along the axis. -/
def flatFace : Axis → Face
  | .x => .west
  | .y => .up
  | .z => .north

end Axis

/-- The component along an axis. -/
def Vec3.get {α : Type} (v : Vec3 α) : Axis → α
  | .x => v.x
  | .y => v.y
  | .z => v.z

/-- The vector with another component along an axis. -/
def Vec3.set {α : Type} (v : Vec3 α) (axis : Axis) (a : α) : Vec3 α :=
  match axis with
  | .x => { v with x := a }
  | .y => { v with y := a }
  | .z => { v with z := a }

theorem Vec3.get_set_self {α : Type} (v : Vec3 α) (axis : Axis) (a : α) :
    (v.set axis a).get axis = a := by
  cases axis <;> rfl

theorem Vec3.get_set_of_ne {α : Type} {axis axis' : Axis} (h : axis' ≠ axis) (v : Vec3 α) (a : α) :
    (v.set axis a).get axis' = v.get axis' := by
  cases axis <;> cases axis' <;> first | rfl | exact absurd rfl h

/-- A vector is determined by its components. -/
theorem Vec3.eq_of_get {α : Type} {v w : Vec3 α} (h : ∀ axis, v.get axis = w.get axis) : v = w := by
  obtain ⟨x, y, z⟩ := v
  obtain ⟨x', y', z'⟩ := w
  obtain rfl : x = x' := h .x
  obtain rfl : y = y' := h .y
  obtain rfl : z = z' := h .z
  rfl

namespace Face

/-- The faces pair by pair along the axes: the order in which a cube's faces are visited. -/
def all : List Face := [.west, .east, .down, .up, .north, .south]

/-- The faces in the order in which tables list them. -/
def listed : List Face := [.down, .up, .north, .south, .west, .east]

theorem mem_all (f : Face) : f ∈ all := by
  cases f <;> decide

theorem mem_listed (f : Face) : f ∈ listed := by
  cases f <;> decide

/-- The axis on which the face looks along. -/
def axis : Face → Axis
  | .west | .east => .x
  | .down | .up => .y
  | .north | .south => .z

/-- The face looks down or up. -/
def isVertical : Face → Bool
  | .down | .up => true
  | _ => false

/-- The face looks to a side. -/
def isSide (f : Face) : Bool := !f.isVertical

/-- The name of the face. -/
def name : Face → String
  | .down => "down"
  | .up => "up"
  | .north => "north"
  | .south => "south"
  | .west => "west"
  | .east => "east"

/-- The face of a name in any case of letters. No character beyond ASCII has one of the letters of
these names as its small form, so only those of ASCII are folded. -/
def ofName? (s : String) : Option Face :=
  listed.find? fun f => f.name == s.map Char.toLower

end Face

end BlockModels
