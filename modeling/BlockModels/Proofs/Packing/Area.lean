import BlockModels.Proofs.Packing.Order
import BlockModels.Proofs.Scalar.Quotients

/-!
# No space is lost

While boxes are packed, the free boxes and the placed ones make up the strip and nothing else
(`Strip.MakesUp`): a position within the width lies in exactly one of them, any other position in
none, and no free box is without extent.

How much of a packing is filled follows by counting positions. Over the positions of a rectangle,
the boxes that lie in it contain as many as their areas add up to (`sum_countP_contains`), and no
position is contained twice. No placed box reaches into the endless part (`Strip.Tiled.height_le`),
so all areas together are at most the area of the packing (`totalArea_le`), and the part of it that
boxes fill is a number between zero and one (`Packing.HoldsAll`).
-/

namespace BlockModels

/-! ## The strip -/

namespace FreeBox

/-- The free box has positions. -/
def HasExtent (f : FreeBox) : Prop := 0 < f.width ∧ f.height ≠ some 0

/-- No part without extent is left when a box is placed. -/
theorem hasExtent_of_mem_split {f g : FreeBox} {s : PixelSize} (hg : g ∈ f.split s) :
    g.HasExtent := by
  have hkept := (List.mem_filter.1 hg).2
  simpa [HasExtent, Nat.pos_iff_ne_zero] using hkept

/-- A position in a free box is to the left of its end. -/
theorem lt_of_contains {f : FreeBox} {x y : Nat} (h : f.contains x y = true) :
    x < f.x + f.width := by
  simp only [contains, Bool.and_eq_true, decide_eq_true_eq] at h
  exact h.1.1.2

end FreeBox

namespace Strip

variable {t : Strip} {width : Nat} {items : List (PixelSize × Nat)}

/-- The free boxes and the placed ones make up the strip: each of its positions lies in one of them,
and no other position does. No free box is without extent. -/
structure MakesUp (t : Strip) (width : Nat) : Prop where
  cover_eq : ∀ x y, t.cover x y = if x < width then 1 else 0
  hasExtent : ∀ f ∈ t.free, f.HasExtent

/-- Placing a box leaves no free box without extent. -/
theorem hasExtent_place (h : ∀ f ∈ t.free, f.HasExtent) (item : PixelSize × Nat) :
    ∀ f ∈ (t.place item).free, f.HasExtent := by
  simp only [Strip.place]
  split
  · exact h
  split
  next => exact h
  next slot _ =>
    split
    next => exact h
    next f hf =>
      intro g hg
      rcases List.mem_append.1 hg with hg | hg
      · exact h g ((perm_cons_swapRemove hf).mem_iff.2 (List.mem_cons_of_mem _ hg))
      · exact FreeBox.hasExtent_of_mem_split hg

/-- Placing boxes leaves no free box without extent. -/
theorem hasExtent_foldl_place (h : ∀ f ∈ t.free, f.HasExtent) (more : List (PixelSize × Nat)) :
    ∀ f ∈ (more.foldl Strip.place t).free, f.HasExtent := by
  induction more generalizing t with
  | nil => exact h
  | cons item more ih => exact ih (hasExtent_place h item)

/-- The empty strip has an extent. -/
theorem hasExtent_empty (hwidth : 0 < width) : ∀ f ∈ (empty width).free, f.HasExtent := by
  intro f hf
  obtain rfl := List.mem_singleton.1 hf
  exact ⟨hwidth, nofun⟩

/-- Nothing lies beside the strip. -/
theorem Tiled.cover_eq_zero (h : t.Tiled width items) {x : Nat} (y : Nat) (hx : width ≤ x) :
    t.cover x y = 0 := by
  have hfree : t.free.countP (·.contains x y) = 0 := List.countP_eq_zero.2 fun f hf hin => by
    have hright := FreeBox.lt_of_contains hin
    have hle := h.free_le f hf
    omega
  have hplaced : t.placed.countP (·.2.contains x y) = 0 := List.countP_eq_zero.2 fun e he hin => by
    have hright := (PixelBox.contains_iff.1 hin).2.1
    have hle := h.placed_le e he
    omega
  rw [cover, hfree, hplaced]

/-- A tiled strip without empty free boxes is made up by its boxes: they reach no further than its
width. -/
theorem Tiled.makesUp (h : t.Tiled width items) (hfree : ∀ f ∈ t.free, f.HasExtent) :
    t.MakesUp width where
  cover_eq x y := by
    split
    next hx => exact h.cover_eq_one x y hx
    next hx => exact h.cover_eq_zero y (Nat.le_of_not_lt hx)
  hasExtent := hfree

/-! ## The height -/

/-- A placed box does not reach into the endless part, so it ends where the heights add up to, or
before. -/
theorem Tiled.bottom_le_of_placed (h : t.Tiled width items) {e : Nat × PixelBox}
    (he : e ∈ t.placed) : e.2.y + e.2.height ≤ totalHeight items := by
  obtain ⟨y₀, hy₀, hend⟩ := h.endless
  obtain ⟨hw, hh⟩ := PixelSize.isEmpty_eq_false_iff.1 (h.mem_of_placed he).2
  simp only at hw hh
  have hle := h.placed_le e he
  by_contra hlow
  have hx : e.2.x < width := by omega
  have hplaced : 0 < t.placed.countP (·.2.contains e.2.x (e.2.y + e.2.height - 1)) :=
    List.countP_pos_iff.2 ⟨e, he, PixelBox.contains_iff.2 (by omega)⟩
  have hfree : 0 < t.free.countP (·.contains e.2.x (e.2.y + e.2.height - 1)) :=
    List.countP_pos_iff.2 ⟨_, hend, FreeBox.contains_endless.2 (by omega)⟩
  have hone := h.cover_eq_one e.2.x (e.2.y + e.2.height - 1) hx
  rw [cover] at hone
  omega

/-- The height is the least that no placed box reaches beyond. -/
theorem height_le {n : Nat} (h : ∀ e ∈ t.placed, e.2.y + e.2.height ≤ n) : t.height ≤ n := by
  obtain ⟨free, placed⟩ := t
  simp only [height] at h ⊢
  induction placed with
  | nil => exact Nat.zero_le _
  | cons e rest ih =>
    obtain ⟨he, hrest⟩ := List.forall_mem_cons.1 h
    exact Nat.max_le.2 ⟨ih hrest, he⟩

/-- The strip is no higher than all boxes one below the other. -/
theorem Tiled.height_le (h : t.Tiled width items) : t.height ≤ totalHeight items :=
  Strip.height_le fun _ he => h.bottom_le_of_placed he

end Strip

/-! ## Counting positions -/

/-- The number of positions in a box. -/
def PixelBox.area (b : PixelBox) : Nat := b.width * b.height

section

variable {width height : Nat}

/-- A box that lies in a rectangle has as many of its positions as its area says. -/
theorem PixelBox.card_contains {b : PixelBox} (hx : b.x + b.width ≤ width)
    (hy : b.y + b.height ≤ height) :
    ((Finset.range width ×ˢ Finset.range height).filter fun p => b.contains p.1 p.2).card =
      b.area := by
  have hbox : (Finset.range width ×ˢ Finset.range height).filter (fun p => b.contains p.1 p.2) =
      Finset.Ico b.x (b.x + b.width) ×ˢ Finset.Ico b.y (b.y + b.height) := by
    ext p
    simp only [Finset.mem_filter, Finset.mem_product, Finset.mem_range, PixelBox.contains_iff,
      Finset.mem_Ico]
    omega
  rw [hbox, Finset.card_product, Nat.card_Ico, Nat.card_Ico, Nat.add_sub_cancel_left,
    Nat.add_sub_cancel_left, PixelBox.area]

variable {boxes : List PixelBox}

/-- Boxes that lie in a rectangle contain as many of its positions as their areas add up to, if a
position counts once for each box that contains it. -/
theorem sum_countP_contains
    (hinside : ∀ b ∈ boxes, b.x + b.width ≤ width ∧ b.y + b.height ≤ height) :
    ∑ p ∈ Finset.range width ×ˢ Finset.range height, boxes.countP (·.contains p.1 p.2) =
      (boxes.map PixelBox.area).sum := by
  induction boxes with
  | nil => simp
  | cons b rest ih =>
    obtain ⟨⟨hx, hy⟩, hrest⟩ := List.forall_mem_cons.1 hinside
    simp only [List.countP_cons, Finset.sum_add_distrib, ih hrest, List.map_cons, List.sum_cons]
    rw [← Finset.card_filter, PixelBox.card_contains hx hy, Nat.add_comm]

/-- If no position is in two of the boxes, their areas add up to that of the rectangle at most. -/
theorem sum_area_le_of_apart
    (hinside : ∀ b ∈ boxes, b.x + b.width ≤ width ∧ b.y + b.height ≤ height)
    (hone : ∀ x y, x < width → boxes.countP (·.contains x y) ≤ 1) :
    (boxes.map PixelBox.area).sum ≤ width * height := by
  calc (boxes.map PixelBox.area).sum
      = ∑ p ∈ Finset.range width ×ˢ Finset.range height, boxes.countP (·.contains p.1 p.2) :=
        (sum_countP_contains hinside).symm
    _ ≤ ∑ p ∈ Finset.range width ×ˢ Finset.range height, 1 :=
        Finset.sum_le_sum fun p hp =>
          hone p.1 p.2 (Finset.mem_range.1 (Finset.mem_product.1 hp).1)
    _ = width * height := by
        rw [← Finset.card_eq_sum_ones, Finset.card_product, Finset.card_range, Finset.card_range]

end

/-! ## The areas of all boxes -/

/-- A box without extent has no area. -/
theorem PixelSize.area_eq_zero {s : PixelSize} (h : s.isEmpty = true) : s.area = 0 := by
  simpa [PixelSize.isEmpty, PixelSize.area] using h

/-- Boxes without extent do not count for the area of all. -/
theorem sum_area_filter (items : List (PixelSize × Nat)) :
    ((items.filter fun item => !item.1.isEmpty).map (·.1.area)).sum =
      (items.map (·.1.area)).sum := by
  induction items with
  | nil => rfl
  | cons item rest ih =>
    cases hempty : item.1.isEmpty with
    | true => simp [hempty, ih, PixelSize.area_eq_zero hempty]
    | false => simp [hempty, ih]

namespace Strip

variable {t : Strip} {width : Nat} {items : List (PixelSize × Nat)}

/-- What is placed has the area of all boxes: those that are not placed have none. -/
theorem Tiled.sum_area (h : t.Tiled width items) :
    ((t.placed.map (·.2)).map PixelBox.area).sum = (items.map (·.1.area)).sum := by
  have hplaced : (t.placed.map (·.2)).map PixelBox.area =
      ((items.filter fun item => !item.1.isEmpty).map (·.1.area)).reverse := by
    rw [← List.map_reverse, ← h.placed_eq, List.map_map, List.map_map]
    rfl
  rw [hplaced, List.sum_reverse, sum_area_filter]

/-- The areas of the boxes in a tiled strip add up to no more than the area of the strip, as no
position is in two of them. -/
theorem Tiled.sum_area_le (h : t.Tiled width items) :
    (items.map (·.1.area)).sum ≤ width * t.height := by
  rw [← h.sum_area]
  refine sum_area_le_of_apart (fun b hb => ?_) fun x y hx => ?_
  · obtain ⟨e, he, rfl⟩ := List.mem_map.1 hb
    exact ⟨h.placed_le e he, le_height he⟩
  · have hone := h.cover_eq_one x y hx
    rw [cover] at hone
    rw [List.countP_map]
    exact (Nat.le_add_left _ _).trans_eq hone

end Strip

/-! ## Packings -/

section

variable {sizes : List PixelSize} {items : List (PixelSize × Nat)} {width : Nat}

/-- A packing is no smaller than what is packed, in whatever order. -/
theorem totalArea_le (hitems : items.Perm sizes.zipIdx) (hwidth : ∀ s ∈ sizes, s.width ≤ width) :
    totalArea sizes ≤ (packInOrder width items).width * (packInOrder width items).height := by
  rw [totalArea_eq_sum, ← sum_map_of_perm hitems]
  exact (Strip.tiled_foldl_place (width_le_of_perm hitems hwidth)).sum_area_le

/-- A packing is at most as high as its boxes on top of each other. -/
theorem height_packInOrder_le (hitems : items.Perm sizes.zipIdx)
    (hwidth : ∀ s ∈ sizes, s.width ≤ width) :
    (packInOrder width items).height ≤ (sizes.map PixelSize.height).sum := by
  rw [← totalHeight_of_perm hitems]
  exact (Strip.tiled_foldl_place (width_le_of_perm hitems hwidth)).height_le

/-- A box with an extent has an area. -/
theorem totalArea_pos (hextent : ∃ s ∈ sizes, s.isEmpty = false) : 0 < totalArea sizes := by
  obtain ⟨s, hs, hne⟩ := hextent
  obtain ⟨hw, hh⟩ := PixelSize.isEmpty_eq_false_iff.1 hne
  rw [totalArea_eq_sum, List.sum_pos_iff_exists_pos_nat]
  exact ⟨s.area, List.mem_map_of_mem hs, Nat.mul_pos hw hh⟩

/-- There is something in a packing and there is room for all of it, so a part of it is filled that
is more than nothing and no more than all. -/
structure Packing.HoldsAll (p : Packing) (sizes : List PixelSize) : Prop where
  area_pos : 0 < totalArea sizes
  area_le : totalArea sizes ≤ p.width * p.height
  efficiency_pos : (0 : Float) < p.efficiency sizes
  efficiency_le : p.efficiency sizes ≤ (1 : Float)

/-- The efficiency of a packing that is no smaller than its boxes is a number between zero and one,
in floating point as well: the area of a packing in words fits into 64 bits. -/
theorem Packing.holdsAll {p : Packing} (hpos : 0 < totalArea sizes)
    (hle : totalArea sizes ≤ p.width * p.height) (hwidth : p.width ≤ maxUnsigned32)
    (hheight : p.height ≤ maxUnsigned32) : p.HoldsAll sizes := by
  have harea : p.width * p.height < 2 ^ 64 :=
    calc p.width * p.height ≤ maxUnsigned32 * maxUnsigned32 := Nat.mul_le_mul hwidth hheight
      _ < 2 ^ 64 := by decide
  have hpart : Binary64.IsPart (p.efficiency sizes) := by
    rw [Packing.efficiency, if_neg (by omega)]
    exact Binary64.isPart_div_ofNat hpos hle harea
  exact ⟨hpos, hle, hpart.pos, hpart.le_one⟩

/-- In every order, and at every width from the widest box on, a packing holds all boxes. -/
theorem holdsAll_packInOrder (hheights : (sizes.map PixelSize.height).sum ≤ maxUnsigned32)
    (hextent : ∃ s ∈ sizes, s.isEmpty = false) (hitems : items.Perm sizes.zipIdx)
    (hwidth : ∀ s ∈ sizes, s.width ≤ width) (hword : width ≤ maxUnsigned32) :
    (packInOrder width items).HoldsAll sizes :=
  Packing.holdsAll (totalArea_pos hextent) (totalArea_le hitems hwidth) hword
    ((height_packInOrder_le hitems hwidth).trans hheights)

/-- The strip is made up of boxes after each number of steps. -/
theorem exists_makesUp_take (hheights : (sizes.map PixelSize.height).sum ≤ maxUnsigned32)
    (hextent : ∃ s ∈ sizes, s.isEmpty = false) (hitems : items.Perm sizes.zipIdx)
    (hwidth : ∀ s ∈ sizes, s.width ≤ width) (hword : width ≤ maxUnsigned32) (k : Nat) :
    ∃ t, (items.take k).foldlM (Strip.placeWord? maxUnsigned32) (.empty width) = some t ∧
      t.Tiled width (items.take k) ∧ t.MakesUp width := by
  have hitem : ∀ item ∈ items.take k, item.1.width ≤ width := fun item h =>
    width_le_of_perm hitems hwidth item (List.mem_of_mem_take h)
  have hpos : 0 < width := by
    obtain ⟨s, hs, hne⟩ := hextent
    exact (PixelSize.isEmpty_eq_false_iff.1 hne).1.trans_le (hwidth s hs)
  have hheight : Strip.totalHeight [] + Strip.totalHeight (items.take k) ≤ maxUnsigned32 := by
    calc Strip.totalHeight [] + Strip.totalHeight (items.take k)
        = Strip.totalHeight (items.take k) := Nat.zero_add _
      _ ≤ Strip.totalHeight items :=
          ((List.take_sublist k items).map _).sum_le_sum fun _ _ => Nat.zero_le _
      _ = (sizes.map PixelSize.height).sum := totalHeight_of_perm hitems
      _ ≤ maxUnsigned32 := hheights
  have htiled := Strip.tiled_foldl_place hitem
  exact ⟨_, (Strip.tiled_empty width).foldlM_placeWord? hword hitem hheight, htiled,
    htiled.makesUp (Strip.hasExtent_foldl_place (Strip.hasExtent_empty hpos) _)⟩

/-- If the heights of the boxes add up to a word and some box has an extent, then in every order,
and for every width of the strip from the widest box on, the strip is made up of free boxes and
placed ones after each number of steps, which a packer in words takes just so. In the end boxes fill
more than nothing of the packing and no more than all, and so it is with the packing that is taken.
-/
theorem packing_loses_no_space (hwidths : ∀ s ∈ sizes, s.width ≤ maxUnsigned32)
    (hheights : (sizes.map PixelSize.height).sum ≤ maxUnsigned32)
    (hextent : ∃ s ∈ sizes, s.isEmpty = false) :
    (∀ (items : List (PixelSize × Nat)) (width : Nat), items.Perm sizes.zipIdx →
      (∀ s ∈ sizes, s.width ≤ width) → width ≤ maxUnsigned32 →
        (∀ k, ∃ t, (items.take k).foldlM (Strip.placeWord? maxUnsigned32) (.empty width) = some t ∧
          t.Tiled width (items.take k) ∧ t.MakesUp width) ∧
        Packing.inWords? maxUnsigned32 width items = some (packInOrder width items) ∧
        (packInOrder width items).HoldsAll sizes) ∧
    (∀ s ∈ sizes, s.width ≤ stripWidth Float sizes) ∧ stripWidth Float sizes ≤ maxUnsigned32 ∧
    (pack Float sizes).HoldsAll sizes := by
  have hstrip : ∀ s ∈ sizes, s.width ≤ stripWidth Float sizes := fun _ hs =>
    width_le_stripWidth Float hs
  refine ⟨fun items width hitems hwidth hword => ⟨?_, ?_, ?_⟩, hstrip, stripWidth_le hwidths, ?_⟩
  · exact exists_makesUp_take hheights hextent hitems hwidth hword
  · exact inWords?_of_perm hitems hwidth hword hheights
  · exact holdsAll_packInOrder hheights hextent hitems hwidth hword
  · obtain ⟨key, -, hpack, -⟩ := exists_order Float (.refl sizes)
    rw [hpack]
    exact holdsAll_packInOrder hheights hextent (perm_sortedSizes sizes key) hstrip
      (stripWidth_le hwidths)

end

/-- Of three boxes one has no width. After one step a box of 1 by 3 is placed, and the rest of the
strip is free; in the end 5 of 8 pixels are filled. -/
theorem packing_loses_no_space_of_three :
    let sizes : List PixelSize := [⟨2, 1⟩, ⟨1, 3⟩, ⟨0, 4⟩]
    let items : List (PixelSize × Nat) := [(⟨1, 3⟩, 1), (⟨0, 4⟩, 2), (⟨2, 1⟩, 0)]
    (∀ s ∈ sizes, s.width ≤ maxUnsigned32) ∧
    (sizes.map PixelSize.height).sum ≤ maxUnsigned32 ∧ (∃ s ∈ sizes, s.isEmpty = false) ∧
    items.Perm sizes.zipIdx ∧
    (∃ t, (items.take 1).foldlM (Strip.placeWord? maxUnsigned32) (.empty 2) = some t ∧
      t.placed = [(1, ⟨0, 0, 1, 3⟩)] ∧ t.MakesUp 2) ∧
    (packInOrder 2 items).HoldsAll sizes ∧ totalArea sizes = 5 ∧
    (packInOrder 2 items).width * (packInOrder 2 items).height = 8 ∧
    (pack Float sizes).HoldsAll sizes := by
  intro sizes items
  have hwidths : ∀ s ∈ sizes, s.width ≤ maxUnsigned32 := by decide
  have hheights : (sizes.map PixelSize.height).sum ≤ maxUnsigned32 := by decide
  have hextent : ∃ s ∈ sizes, s.isEmpty = false := by decide
  have hperm : items.Perm sizes.zipIdx := by decide
  obtain ⟨horders, -, -, hpack⟩ := packing_loses_no_space hwidths hheights hextent
  obtain ⟨hsteps, -, hholds⟩ := horders items 2 hperm (by decide) (by decide)
  obtain ⟨t, hrun, -, hmade⟩ := hsteps 1
  have hplaced : ((items.take 1).foldlM (Strip.placeWord? maxUnsigned32) (.empty 2)).map
      Strip.placed = some [(1, ⟨0, 0, 1, 3⟩)] := by decide
  rw [hrun] at hplaced
  exact ⟨hwidths, hheights, hextent, hperm, ⟨t, hrun, Option.some.inj hplaced, hmade⟩, hholds,
    by decide, by decide, hpack⟩

end BlockModels
