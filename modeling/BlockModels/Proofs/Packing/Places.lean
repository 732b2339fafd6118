import BlockModels.Proofs.Packing.Order

/-!
# The places of boxes in a packing

A packing says where each box is by the number of the box, so it depends on how boxes are listed.
The boxes that have an extent and their places do not (`pack_places_perm`): these are the boxes of
the strip (`Packing.places_perm_placed`), and the strip is alike for all lists of the same boxes.
-/

namespace BlockModels

namespace Packing

/-- The boxes that have an extent by their sizes, each with its corner in a packing. -/
def places (p : Packing) (sizes : List PixelSize) : List (PixelSize × (Nat × Nat)) :=
  (sizes.zipIdx.filter fun item => !item.1.isEmpty).map fun item => (item.1, p.corner item.2)

/-- The size of a box and its corner. -/
def place (b : PixelBox) : PixelSize × (Nat × Nat) := (⟨b.width, b.height⟩, (b.x, b.y))

variable {sizes : List PixelSize} {items : List (PixelSize × Nat)} {width : Nat}

/-- The places of boxes are those of the boxes in the strip. -/
theorem places_perm_placed (hitems : items.Perm sizes.zipIdx)
    (hwidth : ∀ s ∈ sizes, s.width ≤ width) :
    ((packInOrder width items).places sizes).Perm
      ((packInOrder width items).placed.map fun e => place e.2) := by
  have htiled : (items.foldl Strip.place (.empty width)).Tiled width items := by
    refine Strip.tiled_foldl_place fun item hitem => hwidth _ ?_
    exact List.fst_mem_of_mem_zipIdx (hitems.mem_iff.1 hitem)
  have hnodup := htiled.nodup_placed (nodup_of_perm_zipIdx hitems)
  -- The places of boxes by their numbers, for the boxes that were packed and in their order.
  have hpacked : ((packInOrder width items).places sizes).Perm
      ((items.filter fun item => !item.1.isEmpty).reverse.map fun item =>
        (item.1, (packInOrder width items).corner item.2)) :=
    ((hitems.symm.filter _).trans (List.reverse_perm _).symm).map _
  have hcorner : ∀ e ∈ (packInOrder width items).placed,
      (packInOrder width items).corner e.1 = (e.2.x, e.2.y) := by
    intro e he
    rw [corner, lookup_eq_some_of_mem he hnodup]
  rw [← htiled.placed_eq, List.map_map] at hpacked
  refine hpacked.trans (List.Perm.of_eq (List.map_congr_left fun e he => ?_))
  simp only [Function.comp_apply, hcorner e he, place]

end Packing

/-- The order in which boxes are listed makes no difference for the extent of the packing that is
taken, nor for which boxes it has at which places. -/
theorem pack_places_perm (α : Type) [Scalar α] {sizes sizes' : List PixelSize}
    (h : sizes.Perm sizes') :
    (pack α sizes).width = (pack α sizes').width ∧
      (pack α sizes).height = (pack α sizes').height ∧
        ((pack α sizes).places sizes).Perm ((pack α sizes').places sizes') := by
  obtain ⟨hwidth, hheight, -⟩ := pack_perm α h
  refine ⟨hwidth, hheight, ?_⟩
  obtain ⟨key, hkey, heq, heq'⟩ := exists_order α h
  have hlike := isLike_packInOrder (stripWidth α sizes) (sizes_sortedSizes_perm h hkey)
  have hplaced := Packing.places_perm_placed (perm_sortedSizes sizes key)
    fun s hs => width_le_stripWidth α hs
  have hplaced' := Packing.places_perm_placed (perm_sortedSizes sizes' key)
    fun s hs => width_le_stripWidth α (h.mem_iff.2 hs)
  have hboxes := congrArg (List.map Packing.place) hlike.boxes
  rw [List.map_map, List.map_map] at hboxes
  rw [heq, heq']
  exact hplaced.trans ((List.Perm.of_eq hboxes).trans hplaced'.symm)

/-- Two boxes of the same area, one of them twice, and one without extent. -/
theorem pack_places_perm_of_four :
    let sizes : List PixelSize := [⟨2, 1⟩, ⟨1, 2⟩, ⟨0, 4⟩, ⟨2, 1⟩]
    let sizes' : List PixelSize := [⟨0, 4⟩, ⟨1, 2⟩, ⟨2, 1⟩, ⟨2, 1⟩]
    sizes.Perm sizes' ∧
      ((pack Float sizes).places sizes).length = 3 ∧
      (pack Float sizes).width = (pack Float sizes').width ∧
        (pack Float sizes).height = (pack Float sizes').height ∧
          ((pack Float sizes).places sizes).Perm ((pack Float sizes').places sizes') := by
  intro sizes sizes'
  have hperm : sizes.Perm sizes' := by decide
  exact ⟨hperm, rfl, pack_places_perm Float hperm⟩

end BlockModels
