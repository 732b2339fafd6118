import BlockModels.Image.Basic

/-!
# Packing

Boxes are packed into a strip of fixed width that grows downwards. What is free of the strip is a
list of boxes, of which the last one has no end: every box to be packed goes into the free one that
it fills best, and the rest of that one is cut in two.

A packing is made for each of two orders, by area and by width, and the one that leaves less empty
is taken. Boxes without extent are not placed.
-/

namespace BlockModels

/-- The size of a box in pixels. -/
structure PixelSize where
  width : Nat
  height : Nat
  deriving Repr, DecidableEq, Inhabited

namespace PixelSize

/-- The number of pixels. -/
def area (s : PixelSize) : Nat := s.width * s.height

/-- There is nothing to place. -/
def isEmpty (s : PixelSize) : Bool := s.width == 0 || s.height == 0

end PixelSize

/-- The number of pixels of all boxes. -/
def totalArea (sizes : List PixelSize) : Nat := sizes.foldr (fun s n => s.area + n) 0

/-- A part of the strip in which nothing is placed; without a height it has no end. -/
structure FreeBox where
  x : Nat
  y : Nat
  width : Nat
  height : Option Nat
  deriving Repr, DecidableEq, Inhabited

namespace FreeBox

/-- A box of the size can be placed here. -/
def fits (f : FreeBox) (s : PixelSize) : Bool :=
  decide (s.width ≤ f.width) && f.height.all fun h => decide (s.height ≤ h)

/-- What is left of the shorter side when a box of the size is placed here; nothing says so for the
endless part. -/
def slack (f : FreeBox) (s : PixelSize) : Option Nat :=
  f.height.map fun h => min (f.width - s.width) (h - s.height)

/-- One box leaves less than another; every box leaves less than the endless part. -/
def tighter : Option Nat → Option Nat → Bool
  | some a, some b => decide (a < b)
  | some _, none => true
  | none, _ => false

/-- The first of the boxes that leave least, by its position. -/
def best? (s : PixelSize) : List FreeBox → Option Nat
  | [] => none
  | f :: rest =>
    match best? s rest with
    | none => if f.fits s then some 0 else none
    | some i =>
      let later := (rest[i]?).bind fun g => g.slack s
      some (if f.fits s && !tighter later (f.slack s) then 0 else i + 1)

/-- What is left of a box after one of the size was placed in its corner: a part to the right and
a part below. The endless part keeps its width below; of another box the smaller rest is cut off
first. -/
def split (f : FreeBox) (s : PixelSize) : List FreeBox :=
  let besideWidth := f.width - s.width
  let (right, below) : FreeBox × FreeBox :=
    match f.height with
    | none =>
      (⟨f.x + s.width, f.y, besideWidth, some s.height⟩, ⟨f.x, f.y + s.height, f.width, none⟩)
    | some h =>
      let belowHeight := h - s.height
      if besideWidth < belowHeight then
        (⟨f.x + s.width, f.y, besideWidth, some s.height⟩,
          ⟨f.x, f.y + s.height, f.width, some belowHeight⟩)
      else
        (⟨f.x + s.width, f.y, besideWidth, some h⟩,
          ⟨f.x, f.y + s.height, s.width, some belowHeight⟩)
  [right, below].filter fun g => g.width != 0 && g.height != some 0

end FreeBox

/-- Takes an item out of a list; the last one takes its place. -/
def swapRemove {β : Type} (l : List β) (i : Nat) : List β :=
  match l.getLast? with
  | none => []
  | some last => (l.set i last).dropLast

/-- A packing under way. -/
structure Strip where
  free : List FreeBox
  /-- The boxes that are placed, by the number of each, the latest first. -/
  placed : List (Nat × PixelBox) := []
  deriving Inhabited

namespace Strip

/-- A strip in which nothing is placed. -/
def empty (width : Nat) : Strip := { free := [⟨0, 0, width, none⟩] }

/-- Places a box, which has a number, where it leaves least. -/
def place (t : Strip) (item : PixelSize × Nat) : Strip :=
  let (s, i) := item
  if s.isEmpty then t
  else
    match FreeBox.best? s t.free with
    | none => t
    | some slot =>
      match t.free[slot]? with
      | none => t
      | some f =>
        { free := swapRemove t.free slot ++ f.split s
          placed := (i, ⟨f.x, f.y, s.width, s.height⟩) :: t.placed }

/-- Where the lowest of the boxes ends. -/
def height (t : Strip) : Nat := t.placed.foldr (fun e h => max h (e.2.y + e.2.height)) 0

end Strip

/-- Boxes in a strip of some width and the height that they need. -/
structure Packing where
  width : Nat
  height : Nat
  /-- Where each box is, by its number. -/
  placed : List (Nat × PixelBox)
  deriving Inhabited

namespace Packing

/-- The corner of a box by its number; one that was not placed has none, and is said to be in the
first. -/
def corner (p : Packing) (i : Nat) : Nat × Nat :=
  match p.placed.lookup i with
  | some b => (b.x, b.y)
  | none => (0, 0)

/-- The part of the packing's area that boxes fill; of no area it is all. -/
def efficiency {α : Type} [Scalar α] (p : Packing) (sizes : List PixelSize) : α :=
  if p.width * p.height = 0 then 1
  else Scalar.ofNat (totalArea sizes) / Scalar.ofNat (p.width * p.height)

end Packing

/-- Packs boxes, each with its number, in the order in which they are listed. -/
def packInOrder (width : Nat) (items : List (PixelSize × Nat)) : Packing :=
  let strip := items.foldl Strip.place (.empty width)
  ⟨width, strip.height, strip.placed⟩

/-- The boxes with their numbers, those with a greater key first, and of those with the same key the
one with the lesser number. -/
def sortedSizes (sizes : List PixelSize) (key : PixelSize → Nat × Nat) : List (PixelSize × Nat) :=
  let atLeast (a b : Nat × Nat) : Bool :=
    decide (b.1 < a.1) || (decide (a.1 = b.1) && decide (b.2 ≤ a.2))
  sizes.zipIdx.mergeSort fun s t => atLeast (key s.1) (key t.1)

/-- The width of the strip: as for a square of the same area, but no box is wider. -/
def stripWidth (α : Type) [Scalar α] (sizes : List PixelSize) : Nat :=
  max ((sizes.map PixelSize.width).foldr max 0)
    (Scalar.ceilSqrt α (totalArea sizes))

/-- Packs boxes. The order by width is taken only if it leaves less empty than the order by area. -/
def pack (α : Type) [Scalar α] (sizes : List PixelSize) : Packing :=
  let width := stripWidth α sizes
  let byArea := packInOrder width (sortedSizes sizes fun s => (s.area, s.height))
  let byWidth := packInOrder width (sortedSizes sizes fun s => (s.width, s.height))
  if (byArea.efficiency sizes : α) < byWidth.efficiency sizes then byWidth else byArea

end BlockModels
