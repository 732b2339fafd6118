import BlockModels.Proofs.Atlas.Checked
import BlockModels.Proofs.Packing.Order

/-!
# The order in which fragments are listed

Where a fragment is on an atlas depends on the others, but not how large its place is and how it was
trimmed (`Atlas.exists_placement`). And of all that an atlas is, its extent and how much of it is
filled do not depend on the order in which fragments are listed (`Atlas.ofFragments?_perm`), nor
does whether there is one: a row that has pixels can be copied to wherever its fragment is placed
(`Atlas.isCopyable_corner_iff`).
-/

namespace BlockModels

section

variable {α : Type} [Scalar α]

/-- The size of the place of a fragment on an atlas. -/
def ImageFragment.placedSize (outline : Option (Outline α)) (f : ImageFragment α) : Vec2 α :=
  match outline with
  | none => (Footprint.of f).size
  | some o => (Footprint.of f).size.map (· * Scalar.ofNat o.factor)

/-- How wide and how high an image is that was enlarged depends on nothing else of the image. -/
theorem Image.enlarged_congr {img img' : Image} (hwidth : img.width = img'.width)
    (hheight : img.height = img'.height) (factor : Nat) :
    (img.enlarged factor).width = (img'.enlarged factor).width ∧
      (img.enlarged factor).height = (img'.enlarged factor).height := by
  unfold Image.enlarged
  split
  · exact ⟨hwidth, hheight⟩
  · exact ⟨congrArg (· * factor) hwidth, congrArg (· * factor) hheight⟩

/-- Lines do not change the size of the image. -/
theorem Outline.hasSize_enlarged_draw (o : Outline α) (img : Image) (regions : List PixelBox) :
    (o.draw img regions).HasSize (img.enlarged o.factor).width (img.enlarged o.factor).height := by
  have hsize : (img.enlarged o.factor).HasSize (img.enlarged o.factor).width
      (img.enlarged o.factor).height := ⟨rfl, rfl⟩
  refine hsize.foldl (fun canvas p hcanvas => ?_) _
  exact hcanvas

namespace Atlas

variable {fragments fragments' : List (ImageFragment α)} {outline : Option (Outline α)}

/-! ## Placements -/

theorem exists_placement {a : Atlas α} (h : ofFragments? fragments outline = some a) {i : Nat}
    {f : ImageFragment α} (hi : fragments[i]? = some f) :
    ∃ p, a.placements[i]? = some p ∧ p.rect.size = f.placedSize outline ∧ p.crop = f.crop := by
  have hne : fragments ≠ [] := by
    rintro rfl
    cases hi
  rw [ofFragments?_eq hne, Option.map_eq_some_iff] at h
  obtain ⟨plain, hplain, rfl⟩ := h
  have hplace := getElem?_placements hplain hi
  cases outline with
  | none => exact ⟨_, hplace, rfl, rfl⟩
  | some o =>
    have hlarger := congrArg (Option.map fun p : Placement α => p.enlarged o.factor) hplace
    rw [← List.getElem?_map] at hlarger
    exact ⟨_, hlarger, rfl, rfl⟩

/-! ## Copying -/

/-- Whether the rows of a fragment can be copied does not depend on where the fragment is placed. -/
theorem isCopyable_corner_iff {i : Nat} {f : ImageFragment α} (hi : fragments[i]? = some f) :
    Slot.IsCopyable (max (packing fragments).width 1) (max (packing fragments).height 1)
        (f, Footprint.of f, (packing fragments).corner i) ↔
      Slot.IsCopyable (max (packing fragments).width 1) (max (packing fragments).height 1)
        (f, Footprint.of f, (0, 0)) := by
  cases hempty : (Footprint.of f).pixelSize.isEmpty with
  | true => rw [corner_of_isEmpty hi hempty]
  | false =>
    have hwidth := corner_add_width_le hi
    have hheight := corner_add_height_le hi hempty
    -- A row with pixels lies in the atlas, in the first corner as well.
    have htarget : ∀ corner : Nat × Nat,
        corner.1 + (Footprint.of f).box.width ≤ (packing fragments).width →
          corner.2 + (Footprint.of f).box.height ≤ (packing fragments).height →
            ∀ row < (Footprint.of f).box.height,
              (corner.2 + row) * max (packing fragments).width 1 + corner.1 +
                  (Footprint.of f).box.width ≤
                max (packing fragments).width 1 * max (packing fragments).height 1 := by
      intro corner hright hbottom row hrow
      exact row_le (Nat.le_trans hright (Nat.le_max_left _ _)) (by omega)
    simp only [Slot.IsCopyable, Footprint.mem_rowCopies, Image.IsCopyable]
    constructor
    · rintro h c ⟨row, hrow, rfl⟩
      exact ⟨(h _ ⟨row, hrow, rfl⟩).1, htarget (0, 0) (by omega) (by omega) row hrow⟩
    · rintro h c ⟨row, hrow, rfl⟩
      exact ⟨(h _ ⟨row, hrow, rfl⟩).1, htarget _ hwidth hheight row hrow⟩

/-- There is an atlas exactly if the rows of every fragment can be copied. -/
theorem exists_plain?_iff : (∃ a, plain? fragments (packing fragments) = some a) ↔
    ∀ f ∈ fragments, Slot.IsCopyable (max (packing fragments).width 1)
      (max (packing fragments).height 1) (f, Footprint.of f, (0, 0)) := by
  have hslots : (∀ s ∈ slots fragments (packing fragments),
      Slot.IsCopyable (max (packing fragments).width 1) (max (packing fragments).height 1) s) ↔
        ∀ f ∈ fragments, Slot.IsCopyable (max (packing fragments).width 1)
          (max (packing fragments).height 1) (f, Footprint.of f, (0, 0)) := by
    constructor
    · intro h f hf
      obtain ⟨i, hi⟩ := List.getElem?_of_mem hf
      exact (isCopyable_corner_iff hi).1 (h _ (mem_slots.2 ⟨i, f, hi, rfl⟩))
    · intro h s hs
      obtain ⟨i, f, hi, rfl⟩ := mem_slots.1 hs
      exact (isCopyable_corner_iff hi).2 (h f (List.mem_of_getElem? hi))
  rw [← hslots]
  unfold plain?
  rw [compose?_eq]
  split
  · next h => exact iff_of_true ⟨_, rfl⟩ h
  · next h => exact iff_of_false nofun h

/-! ## Extent -/

theorem efficiency_of_plain? {p : Packing} {a : Atlas α} (h : plain? fragments p = some a) :
    a.efficiency = p.efficiency (sizes fragments) := by
  obtain ⟨image, -, ha⟩ := Option.bind_eq_some_iff.1 h
  cases ha
  rfl

theorem sizes_perm (h : fragments.Perm fragments') : (sizes fragments).Perm (sizes fragments') :=
  h.map _

/-- The order in which fragments are listed makes no difference for whether there is an atlas, for
its extent, and for how much of it is filled. -/
theorem ofFragments?_perm (h : fragments.Perm fragments') {a : Atlas α}
    (ha : ofFragments? fragments outline = some a) :
    ∃ a', ofFragments? fragments' outline = some a' ∧ a'.image.width = a.image.width ∧
      a'.image.height = a.image.height ∧ a'.efficiency = a.efficiency := by
  by_cases hempty : fragments = []
  · subst hempty
    cases h.nil_eq
    exact ⟨a, ha, rfl, rfl, rfl⟩
  have hempty' : fragments' ≠ [] := by
    rintro rfl
    exact hempty h.eq_nil
  obtain ⟨hwidth, hheight, hefficiency⟩ := pack_perm α (sizes_perm h)
  rw [ofFragments?_eq hempty, Option.map_eq_some_iff] at ha
  obtain ⟨plain, hplain, rfl⟩ := ha
  have hplain' : ∃ plain', plain? fragments' (packing fragments') = some plain' := by
    rw [exists_plain?_iff, packing, ← hwidth, ← hheight]
    exact fun f hf => exists_plain?_iff.1 ⟨plain, hplain⟩ f (h.mem_iff.2 hf)
  obtain ⟨plain', hplain'⟩ := hplain'
  obtain ⟨hsize, hsize'⟩ := And.intro (hasSize_plain? hplain) (hasSize_plain? hplain')
  rw [packing, ← hwidth, ← hheight] at hsize'
  have hwidths := hsize'.1.trans hsize.1.symm
  have hheights := hsize'.2.trans hsize.2.symm
  have hefficiencies : plain'.efficiency = plain.efficiency := by
    rw [efficiency_of_plain? hplain, efficiency_of_plain? hplain']
    exact hefficiency.symm
  rw [ofFragments?_eq hempty', hplain']
  refine ⟨_, rfl, ?_⟩
  cases outline with
  | none => exact ⟨hwidths, hheights, hefficiencies⟩
  | some o =>
    obtain ⟨hwidths, hheights⟩ := Image.enlarged_congr hwidths hheights o.factor
    have hdraw := o.hasSize_enlarged_draw plain.image (regions fragments (packing fragments))
    have hdraw' := o.hasSize_enlarged_draw plain'.image (regions fragments' (packing fragments'))
    exact ⟨hdraw'.1.trans (hwidths.trans hdraw.1.symm),
      hdraw'.2.trans (hheights.trans hdraw.2.symm), hefficiencies⟩

end Atlas

end

end BlockModels
