import BlockModels.Proofs.Packing.Words

/-!
# A packing is valid

In a packing every box that has an extent is placed, with its size, within the bounds of the
packing, no two of these boxes share a position, and no other box is placed (`Packing.Valid`). This
holds for every order in which the boxes are packed and every width of the strip that is no less
than the widest box (`packInOrder_valid`), so it holds of the packing that is taken in the end
(`pack_valid`), and the packer in words finds the same packing.
-/

namespace BlockModels

namespace Packing

/-- The place of a box, which has a number and a size, in a packing. -/
def boxAt (p : Packing) (i : Nat) (s : PixelSize) : PixelBox :=
  ⟨(p.corner i).1, (p.corner i).2, s.width, s.height⟩

/-- Every box that has an extent is placed, within the bounds, and no two of these boxes share a
position. The others are not placed. -/
structure Valid (p : Packing) (sizes : List PixelSize) : Prop where
  placed : ∀ i s, sizes[i]? = some s → s.isEmpty = false → p.placed.lookup i = some (p.boxAt i s)
  unplaced : ∀ i s, sizes[i]? = some s → s.isEmpty = true → p.placed.lookup i = none
  inside : ∀ i s, sizes[i]? = some s → s.isEmpty = false →
    (p.corner i).1 + s.width ≤ p.width ∧ (p.corner i).2 + s.height ≤ p.height
  apart : ∀ i j s t, i ≠ j → sizes[i]? = some s → sizes[j]? = some t → s.isEmpty = false →
    t.isEmpty = false → ∀ x y, (p.boxAt i s).contains x y = true →
      (p.boxAt j t).contains x y = false

end Packing

namespace Strip

variable {t : Strip} {width : Nat} {items : List (PixelSize × Nat)}

/-- A box that has an extent was placed under its number. -/
theorem Tiled.exists_placed (h : t.Tiled width items) {s : PixelSize} {i : Nat}
    (hmem : (s, i) ∈ items) (hs : s.isEmpty = false) :
    ∃ e ∈ t.placed, e.1 = i ∧ e.2.width = s.width ∧ e.2.height = s.height := by
  have hin : (s, i) ∈ t.placed.map fun e => ((⟨e.2.width, e.2.height⟩ : PixelSize), e.1) := by
    rw [h.placed_eq, List.mem_reverse, List.mem_filter]
    exact ⟨hmem, by simp [hs]⟩
  obtain ⟨e, he, heq⟩ := List.mem_map.1 hin
  cases heq
  exact ⟨e, he, rfl, rfl, rfl⟩

/-- What was placed is a box that has an extent. -/
theorem Tiled.mem_of_placed (h : t.Tiled width items) {e : Nat × PixelBox} (he : e ∈ t.placed) :
    (⟨e.2.width, e.2.height⟩, e.1) ∈ items ∧ PixelSize.isEmpty ⟨e.2.width, e.2.height⟩ = false := by
  have hin := List.mem_map_of_mem (f := fun e => ((⟨e.2.width, e.2.height⟩ : PixelSize), e.1)) he
  rw [h.placed_eq, List.mem_reverse, List.mem_filter] at hin
  exact ⟨hin.1, by simpa using hin.2⟩

/-- If the boxes have different numbers, so have those that are placed. -/
theorem Tiled.nodup_placed (h : t.Tiled width items) (hnodup : (items.map (·.2)).Nodup) :
    (t.placed.map (·.1)).Nodup := by
  have hnumbers : t.placed.map (·.1) =
      ((items.filter fun item => !item.1.isEmpty).map (·.2)).reverse := by
    rw [← List.map_reverse, ← h.placed_eq, List.map_map]
    rfl
  rw [hnumbers, List.nodup_reverse]
  exact hnodup.sublist (List.filter_sublist.map _)

end Strip

section

variable {sizes : List PixelSize} {items : List (PixelSize × Nat)} {width : Nat}

/-- In every order of the boxes, each number is there once. -/
theorem nodup_of_perm_zipIdx (hitems : items.Perm sizes.zipIdx) : (items.map (·.2)).Nodup := by
  rw [(hitems.map (·.2)).nodup_iff, List.zipIdx_map_snd]
  exact List.nodup_range'

/-- In every order of the boxes, each of them is there with its number. -/
theorem mem_of_getElem? (hitems : items.Perm sizes.zipIdx) {i : Nat} {s : PixelSize}
    (h : sizes[i]? = some s) : (s, i) ∈ items :=
  hitems.mem_iff.2 (List.mk_mem_zipIdx_iff_getElem?.2 h)

/-- In every order of the boxes, the number of a box says which it is. -/
theorem getElem?_of_mem (hitems : items.Perm sizes.zipIdx) {i : Nat} {s : PixelSize}
    (h : (s, i) ∈ items) : sizes[i]? = some s :=
  List.mk_mem_zipIdx_iff_getElem?.1 (hitems.mem_iff.1 h)

/-- What bounds the widths of all boxes does so in every order of them. -/
theorem width_le_of_perm (hitems : items.Perm sizes.zipIdx)
    (hwidth : ∀ s ∈ sizes, s.width ≤ width) : ∀ item ∈ items, item.1.width ≤ width :=
  fun _ hitem => hwidth _ (List.fst_mem_of_mem_zipIdx (hitems.mem_iff.1 hitem))

/-- Whatever the order in which boxes are packed, the packing is valid if none of them is wider than
the strip. -/
theorem packInOrder_valid (hitems : items.Perm sizes.zipIdx)
    (hwidth : ∀ s ∈ sizes, s.width ≤ width) : (packInOrder width items).Valid sizes := by
  have htiled := Strip.tiled_foldl_place (width_le_of_perm hitems hwidth)
  have hnodup := htiled.nodup_placed (nodup_of_perm_zipIdx hitems)
  -- A box that has an extent is placed under its number, at what the packing says is its corner.
  have hplaced : ∀ i s, sizes[i]? = some s → s.isEmpty = false →
      (i, (packInOrder width items).boxAt i s) ∈ (packInOrder width items).placed := by
    intro i s hi hs
    obtain ⟨⟨j, b⟩, he, rfl, hbw, hbh⟩ := htiled.exists_placed (mem_of_getElem? hitems hi) hs
    have hlookup : (packInOrder width items).placed.lookup j = some b :=
      lookup_eq_some_of_mem he hnodup
    have hbox : (packInOrder width items).boxAt j s = b := by
      simp only [Packing.boxAt, Packing.corner, hlookup, ← hbw, ← hbh]
    rw [hbox]
    exact he
  exact {
    placed := fun i s hi hs => lookup_eq_some_of_mem (hplaced i s hi hs) hnodup
    unplaced := by
      intro i s hi hs
      refine List.lookup_eq_none_iff.2 fun e he => ?_
      obtain ⟨hmem, hs'⟩ := htiled.mem_of_placed he
      rw [bne_iff_ne]
      rintro rfl
      rw [getElem?_of_mem hitems hmem] at hi
      cases hi
      rw [hs] at hs'
      cases hs'
    inside := fun i s hi hs =>
      ⟨htiled.placed_le _ (hplaced i s hi hs), Strip.le_height (hplaced i s hi hs)⟩
    apart := by
      intro i j s t hij hi hj hs ht x y hx
      by_contra hy
      rw [Bool.not_eq_false] at hy
      have heq := htiled.eq_of_placed_contains (hplaced i s hi hs) (hplaced j t hj ht) hx hy
      exact hij (Prod.mk.inj heq).1 }

/-! ## The packing that is taken -/

/-- To sort boxes is to bring them in another order. -/
theorem perm_sortedSizes (sizes : List PixelSize) (key : PixelSize → Nat × Nat) :
    (sortedSizes sizes key).Perm sizes.zipIdx :=
  List.mergeSort_perm _ _

/-- No box is wider than the strip, whatever the root of the area is. -/
theorem width_le_stripWidth (α : Type) [Scalar α] {s : PixelSize} (hs : s ∈ sizes) :
    s.width ≤ stripWidth α sizes :=
  Nat.le_trans (List.le_max_of_le (List.mem_map_of_mem hs) le_rfl) (Nat.le_max_left _ _)

/-- The packing that is taken is valid. -/
theorem pack_valid (α : Type) [Scalar α] (sizes : List PixelSize) : (pack α sizes).Valid sizes := by
  have hvalid : ∀ key, (packInOrder (stripWidth α sizes) (sortedSizes sizes key)).Valid sizes :=
    fun key => packInOrder_valid (perm_sortedSizes sizes key) fun s hs => width_le_stripWidth α hs
  unfold pack
  simp only
  split
  · exact hvalid _
  · exact hvalid _

/-- The strip is no wider than the greatest word if no box is. -/
theorem stripWidth_le (hwidths : ∀ s ∈ sizes, s.width ≤ maxUnsigned32) :
    stripWidth Float sizes ≤ maxUnsigned32 := by
  refine Nat.max_le.2 ⟨List.max_le_of_forall_le _ _ fun n hn => ?_, Nat.min_le_left _ _⟩
  obtain ⟨s, hs, rfl⟩ := List.mem_map.1 hn
  exact hwidths s hs

/-- What adds up over boxes does so in every order. -/
theorem sum_map_of_perm (hitems : items.Perm sizes.zipIdx) (f : PixelSize → Nat) :
    (items.map fun item => f item.1).sum = (sizes.map f).sum := by
  have hfst : sizes.zipIdx.map (fun item => f item.1) = (sizes.zipIdx.map Prod.fst).map f := by
    rw [List.map_map]
    rfl
  rw [(hitems.map _).sum_nat, hfst, List.zipIdx_map_fst]

/-- The heights of all boxes add up to the same in every order. -/
theorem totalHeight_of_perm (hitems : items.Perm sizes.zipIdx) :
    Strip.totalHeight items = (sizes.map PixelSize.height).sum :=
  sum_map_of_perm hitems PixelSize.height

/-- In words the packing is the same, for every order of the boxes. -/
theorem inWords?_of_perm (hitems : items.Perm sizes.zipIdx)
    (hwidth : ∀ s ∈ sizes, s.width ≤ width) (hword : width ≤ maxUnsigned32)
    (hheights : (sizes.map PixelSize.height).sum ≤ maxUnsigned32) :
    Packing.inWords? maxUnsigned32 width items = some (packInOrder width items) := by
  refine Packing.inWords?_eq_some (width_le_of_perm hitems hwidth) hword ?_
  rwa [totalHeight_of_perm hitems]

/-- If the heights of the boxes add up to a word, then in every order, and for every width of the
strip from the widest box on, boxes are packed in words: there is always room, no sum is too great
and no difference is below zero. The packing is valid, and so is the one that is taken. -/
theorem packing_valid_in_words (hwidths : ∀ s ∈ sizes, s.width ≤ maxUnsigned32)
    (hheights : (sizes.map PixelSize.height).sum ≤ maxUnsigned32) :
    (∀ (items : List (PixelSize × Nat)) (width : Nat), items.Perm sizes.zipIdx →
      (∀ s ∈ sizes, s.width ≤ width) → width ≤ maxUnsigned32 →
        Packing.inWords? maxUnsigned32 width items = some (packInOrder width items) ∧
          (packInOrder width items).Valid sizes) ∧
    (∀ key, Packing.inWords? maxUnsigned32 (stripWidth Float sizes) (sortedSizes sizes key) =
      some (packInOrder (stripWidth Float sizes) (sortedSizes sizes key))) ∧
    (pack Float sizes).Valid sizes := by
  refine ⟨fun items width hitems hwidth hword => ⟨?_, packInOrder_valid hitems hwidth⟩,
    fun key => ?_, pack_valid Float sizes⟩
  · exact inWords?_of_perm hitems hwidth hword hheights
  · exact inWords?_of_perm (perm_sortedSizes sizes key) (fun s hs => width_le_stripWidth Float hs)
      (stripWidth_le hwidths) hheights

end

/-- Of three boxes one has no width; they are packed in an order of their own, by the packer in
words too, and in the order that is chosen. -/
theorem packing_valid_in_words_of_three :
    let sizes : List PixelSize := [⟨2, 1⟩, ⟨1, 3⟩, ⟨0, 4⟩]
    let items : List (PixelSize × Nat) := [(⟨1, 3⟩, 1), (⟨0, 4⟩, 2), (⟨2, 1⟩, 0)]
    (∀ s ∈ sizes, s.width ≤ maxUnsigned32) ∧
    (sizes.map PixelSize.height).sum ≤ maxUnsigned32 ∧ items.Perm sizes.zipIdx ∧
    Packing.inWords? maxUnsigned32 2 items = some (packInOrder 2 items) ∧
    (packInOrder 2 items).Valid sizes ∧ (pack Float sizes).Valid sizes := by
  have hwidths : ∀ s ∈ ([⟨2, 1⟩, ⟨1, 3⟩, ⟨0, 4⟩] : List PixelSize), s.width ≤ maxUnsigned32 := by
    decide
  have hheights : (([⟨2, 1⟩, ⟨1, 3⟩, ⟨0, 4⟩] : List PixelSize).map PixelSize.height).sum ≤
      maxUnsigned32 := by decide
  have hperm : ([(⟨1, 3⟩, 1), (⟨0, 4⟩, 2), (⟨2, 1⟩, 0)] : List (PixelSize × Nat)).Perm
      ([⟨2, 1⟩, ⟨1, 3⟩, ⟨0, 4⟩] : List PixelSize).zipIdx := by decide
  have h := packing_valid_in_words hwidths hheights
  have hrun := h.1 _ 2 hperm (by decide) (by decide)
  exact ⟨hwidths, hheights, hperm, hrun.1, hrun.2, h.2.2⟩

end BlockModels
