import BlockModels.Proofs.Packing.Validity

/-!
# The order in which boxes are listed

Boxes are sorted before they are packed, and of boxes with the same key each is like the other as
far as it has an extent. So the order in which boxes are listed makes no difference for the extent
of the packing and for how much of it is filled (`pack_perm`): the sorted boxes are the same
(`sizes_sortedSizes_perm`), and a box goes where its size says, whatever its number is
(`Strip.IsLike`).
-/

namespace BlockModels

/-! ## Placing without numbers -/

namespace Strip

variable {t t' : Strip}

/-- Two strips are alike up to the numbers of their boxes. -/
structure IsLike (t t' : Strip) : Prop where
  free : t.free = t'.free
  boxes : t.placed.map (·.2) = t'.placed.map (·.2)

/-- A strip is like itself. -/
theorem IsLike.refl (t : Strip) : t.IsLike t := ⟨rfl, rfl⟩

/-- Where a box is placed does not depend on its number. -/
theorem IsLike.place (h : t.IsLike t') (s : PixelSize) (i j : Nat) :
    (t.place (s, i)).IsLike (t'.place (s, j)) := by
  simp only [Strip.place]
  split
  · exact h
  rw [← h.free]
  cases FreeBox.best? s t.free with
  | none => exact h
  | some slot =>
    cases hslot : t.free[slot]? with
    | none =>
      simp only [hslot]
      exact h
    | some f =>
      simp only [hslot]
      exact ⟨rfl, congrArg (_ :: ·) h.boxes⟩

/-- Boxes of the same sizes are placed alike in strips that are alike. -/
theorem IsLike.foldl_place (h : t.IsLike t') {items items' : List (PixelSize × Nat)}
    (hitems : items.map (·.1) = items'.map (·.1)) :
    (items.foldl Strip.place t).IsLike (items'.foldl Strip.place t') := by
  induction items generalizing items' t t' with
  | nil =>
    rw [List.map_nil, eq_comm, List.map_eq_nil_iff] at hitems
    rw [hitems]
    exact h
  | cons item rest ih =>
    cases items' with
    | nil => cases hitems
    | cons item' rest' =>
      obtain ⟨s, i⟩ := item
      obtain ⟨s', j⟩ := item'
      obtain ⟨rfl, hrest⟩ := List.cons.inj hitems
      exact ih (h.place s i j) hrest

/-- Boxes without extent can be left out. -/
theorem foldl_place_filter (items : List (PixelSize × Nat)) :
    (items.filter fun item => !item.1.isEmpty).foldl Strip.place t = items.foldl Strip.place t := by
  induction items generalizing t with
  | nil => rfl
  | cons item rest ih =>
    obtain ⟨s, i⟩ := item
    cases hempty : s.isEmpty with
    | true => simp only [List.filter_cons, hempty, List.foldl_cons, place_of_isEmpty hempty, ih,
        Bool.not_true, Bool.false_eq_true, if_false]
    | false => simp only [List.filter_cons, hempty, List.foldl_cons, ih, Bool.not_false, if_true]

/-- Strips that are alike have the same height. -/
theorem IsLike.height_eq (h : t.IsLike t') : t.height = t'.height := by
  have hheight : ∀ t : Strip, t.height =
      (t.placed.map (·.2)).foldr (fun b h => max h (b.y + b.height)) 0 := by
    intro t
    rw [height, List.foldr_map]
  rw [hheight, hheight, h.boxes]

end Strip

/-- Boxes with the same sizes in the same order are placed alike. -/
theorem isLike_packInOrder (width : Nat) {items items' : List (PixelSize × Nat)}
    (h : (items.filter fun item => !item.1.isEmpty).map (·.1) =
      (items'.filter fun item => !item.1.isEmpty).map (·.1)) :
    (items.foldl Strip.place (.empty width)).IsLike (items'.foldl Strip.place (.empty width)) := by
  have hlike := (Strip.IsLike.refl (.empty width)).foldl_place h
  rwa [Strip.foldl_place_filter, Strip.foldl_place_filter] at hlike

/-! ## Sorting -/

variable {sizes sizes' : List PixelSize}

/-- A key tells apart the sizes that have an extent. -/
def IsTelling (key : PixelSize → Nat × Nat) : Prop :=
  ∀ s t : PixelSize, s.isEmpty = false → t.isEmpty = false → key s = key t → s = t

/-- Area and height tell sizes with an extent apart: the height divides the area. -/
theorem isTelling_area : IsTelling fun s => (s.area, s.height) := by
  intro s t hs _ h
  obtain ⟨harea, hheight⟩ := Prod.mk.inj h
  have hpos := (PixelSize.isEmpty_eq_false_iff.1 hs).2
  rw [PixelSize.area, PixelSize.area, ← hheight] at harea
  cases s
  cases t
  exact PixelSize.mk.injEq .. ▸ ⟨Nat.eq_of_mul_eq_mul_right hpos harea, hheight⟩

/-- Width and height tell sizes apart. -/
theorem isTelling_width : IsTelling fun s => (s.width, s.height) := by
  intro s t _ _ h
  obtain ⟨hwidth, hheight⟩ := Prod.mk.inj h
  cases s
  cases t
  exact PixelSize.mk.injEq .. ▸ ⟨hwidth, hheight⟩

/-- One key is not below another. -/
def keyAtLeast (a b : Nat × Nat) : Bool :=
  decide (b.1 < a.1) || (decide (a.1 = b.1) && decide (b.2 ≤ a.2))

/-- Keys are compared by their first part, and by the second where the first is the same. -/
theorem keyAtLeast_iff {a b : Nat × Nat} :
    keyAtLeast a b = true ↔ b.1 < a.1 ∨ a.1 = b.1 ∧ b.2 ≤ a.2 := by
  simp [keyAtLeast]

/-- In sorted sizes, no key comes after a smaller one. -/
theorem pairwise_sortedSizes (sizes : List PixelSize) (key : PixelSize → Nat × Nat) :
    (sortedSizes sizes key).Pairwise fun s t => keyAtLeast (key s.1) (key t.1) = true := by
  refine List.pairwise_mergeSort (fun a b c hab hbc => ?_) (fun a b => ?_) _
  · have hab := keyAtLeast_iff.1 hab
    have hbc := keyAtLeast_iff.1 hbc
    exact keyAtLeast_iff.2 (by omega)
  · rw [Bool.or_eq_true]
    refine (?_ : keyAtLeast (key a.1) (key b.1) = true ∨ keyAtLeast (key b.1) (key a.1) = true)
    rw [keyAtLeast_iff, keyAtLeast_iff]
    omega

/-- Boxes that are listed in the order of a key stay in this order. -/
theorem sortedSizes_of_pairwise {key : PixelSize → Nat × Nat}
    (h : sizes.Pairwise fun s t => keyAtLeast (key s) (key t) = true) :
    sortedSizes sizes key = sizes.zipIdx := by
  refine List.mergeSort_of_pairwise ?_
  rw [← List.zipIdx_map_fst 0 sizes, List.pairwise_map] at h
  exact h

/-- Boxes that are listed in the order of both keys are packed in the order in which they are
listed. -/
theorem pack_of_pairwise (α : Type) [Scalar α]
    (harea : sizes.Pairwise fun s t => keyAtLeast (s.area, s.height) (t.area, t.height) = true)
    (hwidth : sizes.Pairwise fun s t => keyAtLeast (s.width, s.height) (t.width, t.height) = true) :
    pack α sizes = packInOrder (stripWidth α sizes) sizes.zipIdx := by
  rw [pack, sortedSizes_of_pairwise harea, sortedSizes_of_pairwise hwidth]
  exact ite_self _

/-- The sizes of sorted boxes that have an extent are the same, however the boxes are listed. -/
theorem sizes_sortedSizes_perm (h : sizes.Perm sizes') {key : PixelSize → Nat × Nat}
    (hkey : IsTelling key) :
    ((sortedSizes sizes key).filter fun item => !item.1.isEmpty).map (·.1) =
      ((sortedSizes sizes' key).filter fun item => !item.1.isEmpty).map (·.1) := by
  have hsorted : ∀ sizes : List PixelSize,
      (((sortedSizes sizes key).filter fun item => !item.1.isEmpty).map (·.1)).Pairwise
        fun s t => keyAtLeast (key s) (key t) = true := by
    intro sizes
    rw [List.pairwise_map]
    exact (pairwise_sortedSizes sizes key).filter _
  have hperm : ∀ sizes : List PixelSize,
      (((sortedSizes sizes key).filter fun item => !item.1.isEmpty).map (·.1)).Perm
        (sizes.filter fun s => !s.isEmpty) := by
    intro sizes
    have hfilter := ((perm_sortedSizes sizes key).map (·.1)).filter fun s => !s.isEmpty
    rwa [List.zipIdx_map_fst, List.filter_map] at hfilter
  refine List.Perm.eq_of_pairwise (fun s t hs ht hst hts => ?_) (hsorted sizes) (hsorted sizes')
    ((hperm sizes).trans ((h.filter _).trans (hperm sizes').symm))
  have hextent : ∀ {sizes : List PixelSize} {s : PixelSize},
      s ∈ ((sortedSizes sizes key).filter fun item => !item.1.isEmpty).map (·.1) →
        s.isEmpty = false := by
    intro sizes s hs
    simpa using (List.mem_filter.1 ((hperm sizes).mem_iff.1 hs)).2
  have hst := keyAtLeast_iff.1 hst
  have hts := keyAtLeast_iff.1 hts
  exact hkey s t (hextent hs) (hextent ht) (Prod.ext (by omega) (by omega))

/-! ## Packings -/

/-- The total area is the sum of the areas. -/
theorem totalArea_eq_sum (sizes : List PixelSize) :
    totalArea sizes = (sizes.map PixelSize.area).sum := by
  rw [List.sum, List.foldr_map]
  rfl

/-- The total area does not depend on the order. -/
theorem totalArea_perm (h : sizes.Perm sizes') : totalArea sizes = totalArea sizes' := by
  rw [totalArea_eq_sum, totalArea_eq_sum, (h.map PixelSize.area).sum_nat]

/-- The width of the strip does not depend on the order. -/
theorem stripWidth_perm (α : Type) [Scalar α] (h : sizes.Perm sizes') :
    stripWidth α sizes = stripWidth α sizes' := by
  rw [stripWidth, stripWidth, totalArea_perm h, (h.map PixelSize.width).foldr_eq]

/-- The efficiency depends on the size of the packing and on the total area only. -/
theorem efficiency_congr {α : Type} [Scalar α] {p p' : Packing} (hwidth : p.width = p'.width)
    (hheight : p.height = p'.height) (harea : totalArea sizes = totalArea sizes') :
    (p.efficiency sizes : α) = p'.efficiency sizes' := by
  rw [Packing.efficiency, Packing.efficiency, hwidth, hheight, harea]

/-- However boxes are listed, the packing that is taken is the one for the same of the two orders,
and for a strip of the same width. -/
theorem exists_order (α : Type) [Scalar α] (h : sizes.Perm sizes') : ∃ key, IsTelling key ∧
    pack α sizes = packInOrder (stripWidth α sizes) (sortedSizes sizes key) ∧
      pack α sizes' = packInOrder (stripWidth α sizes) (sortedSizes sizes' key) := by
  have hefficiency : ∀ {key}, IsTelling key →
      ((packInOrder (stripWidth α sizes) (sortedSizes sizes key)).efficiency sizes : α) =
        (packInOrder (stripWidth α sizes) (sortedSizes sizes' key)).efficiency sizes' := by
    intro key hkey
    have hlike := isLike_packInOrder (stripWidth α sizes) (sizes_sortedSizes_perm h hkey)
    exact efficiency_congr rfl hlike.height_eq (totalArea_perm h)
  simp only [pack, ← stripWidth_perm α h, hefficiency isTelling_area, hefficiency isTelling_width]
  split
  · exact ⟨_, isTelling_width, rfl, rfl⟩
  · exact ⟨_, isTelling_area, rfl, rfl⟩

/-- The order in which boxes are listed makes no difference for the extent of the packing, and for
how much of it is filled. -/
theorem pack_perm (α : Type) [Scalar α] (h : sizes.Perm sizes') :
    (pack α sizes).width = (pack α sizes').width ∧
      (pack α sizes).height = (pack α sizes').height ∧
        ((pack α sizes).efficiency sizes : α) = (pack α sizes').efficiency sizes' := by
  obtain ⟨key, hkey, heq, heq'⟩ := exists_order α h
  have hheight :=
    (isLike_packInOrder (stripWidth α sizes) (sizes_sortedSizes_perm h hkey)).height_eq
  rw [heq, heq']
  exact ⟨rfl, hheight, efficiency_congr rfl hheight (totalArea_perm h)⟩

end BlockModels
