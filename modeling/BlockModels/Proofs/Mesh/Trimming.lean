import BlockModels.Mesh.Bone
import BlockModels.Proofs.Image.Trimming

/-!
# Cubes behind trimmed textures

A texture lies on two axes of a face, along them or against them as the face turns it over
(`FaceUse.axes`), and the third one is the axis along which the face looks. So a cube that is
cropped does not change along that axis (`BoneCube.isCropped_crop`), and in exact arithmetic it
stays within the cube that was there before, since a crop takes a part of what it crops
(`BoneCube.isWithin_crop`).
-/

namespace BlockModels

/-- The axis, in the other direction if the texture is turned over on it. -/
def TextureAxis.turn (t : TextureAxis) (flip : Bool) : TextureAxis :=
  { t with forward := t.forward != flip }

/-- How the axes of a texture lie on a face that uses it. -/
def FaceUse.axes (use : FaceUse) (f : Face) : TextureAxis × TextureAxis :=
  (f.textureAxes.1.turn (BoneCube.turned f use.flipU),
    f.textureAxes.2.turn (BoneCube.turned f use.flipV))

section

variable {α : Type}

namespace BoneCube

/-- The two cubes have the same place and extent on an axis. -/
def AlignedOn (part whole : BoneCube α) (axis : Axis) : Prop :=
  part.origin.get axis = whole.origin.get axis ∧ part.size.get axis = whole.size.get axis

/-- What is aligned with an aligned part is aligned with the whole. -/
theorem AlignedOn.trans {part cube whole : BoneCube α} {axis : Axis} (h : part.AlignedOn cube axis)
    (h' : cube.AlignedOn whole axis) : part.AlignedOn whole axis :=
  ⟨h.1.trans h'.1, h.2.trans h'.2⟩

variable [Scalar α]

/-- Cropping along one axis leaves the others as they are. -/
theorem alignedOn_cropAlong (cube : BoneCube α) (t : TextureAxis) (start length : α) {axis : Axis}
    (h : axis ≠ t.axis) : (cube.cropAlong t start length).AlignedOn cube axis :=
  ⟨Vec3.get_set_of_ne h _ _, Vec3.get_set_of_ne h _ _⟩

/-- A face that is drawn is cropped along one axis of its texture and then along the other. -/
theorem crop_eq {cube : BoneCube α} {f : Face} {use : FaceUse} (h : cube.face? f = some use)
    (part : Crop α) : cube.crop f part =
      (cube.cropAlong (use.axes f).1 part.x part.w).cropAlong (use.axes f).2 part.y part.h := by
  rw [crop, h]
  rfl

/-- What is left of a cube behind a part of the texture on a face: along the axes of the texture its
extent is the part's, along the axis of the face nothing changes, and only place and extent do. -/
structure IsCropped (whole cube : BoneCube α) (f : Face) (part : Crop α) : Prop where
  eq : cube = whole.crop f part
  frame : cube = { whole with origin := cube.origin, size := cube.size }
  width : cube.size.get f.textureAxes.1.axis = part.w * whole.size.get f.textureAxes.1.axis
  height : cube.size.get f.textureAxes.2.axis = part.h * whole.size.get f.textureAxes.2.axis
  aligned : cube.AlignedOn whole f.axis

/-- Cropping a face leaves of the cube what the part says. -/
theorem isCropped_crop {cube : BoneCube α} {f : Face} {use : FaceUse} (h : cube.face? f = some use)
    (part : Crop α) : cube.IsCropped (cube.crop f part) f part := by
  have hne := f.textureAxes_ne
  have hcrop := crop_eq h part
  refine ⟨rfl, ?_, ?_, ?_, ?_⟩
  · rw [hcrop]
    rfl
  · rw [hcrop, (alignedOn_cropAlong _ (use.axes f).2 _ _ hne).2]
    exact Vec3.get_set_self _ _ _
  · rw [hcrop, ← (alignedOn_cropAlong cube (use.axes f).1 part.x part.w hne.symm).2]
    exact Vec3.get_set_self _ _ _
  · rw [hcrop]
    exact (alignedOn_cropAlong _ (use.axes f).2 _ _ f.axis_ne_textureAxes.2).trans
      (alignedOn_cropAlong cube (use.axes f).1 _ _ f.axis_ne_textureAxes.1)

end BoneCube

end

/-! ## Parts of cubes -/

namespace BoneCube

/-- No extent of the cube is negative. -/
def IsSized (cube : BoneCube Rat) : Prop := ∀ axis, 0 ≤ cube.size.get axis

/-- The cube lies in another one. -/
structure IsWithin (part whole : BoneCube Rat) : Prop where
  sized : part.IsSized
  low_le : ∀ axis, whole.origin.get axis ≤ part.origin.get axis
  high_le : ∀ axis, part.origin.get axis + part.size.get axis ≤
    whole.origin.get axis + whole.size.get axis

/-- A cube lies within itself. -/
theorem IsWithin.refl {cube : BoneCube Rat} (h : cube.IsSized) : cube.IsWithin cube :=
  ⟨h, fun _ => le_refl _, fun _ => le_refl _⟩

/-- What lies within a part lies within the whole. -/
theorem IsWithin.trans {part cube whole : BoneCube Rat} (h : part.IsWithin cube)
    (h' : cube.IsWithin whole) : part.IsWithin whole :=
  ⟨h.sized, fun axis => (h'.low_le axis).trans (h.low_le axis),
    fun axis => (h.high_le axis).trans (h'.high_le axis)⟩

/-- A cube that is cropped to a part between its ends lies within the whole one. -/
theorem isWithin_cropAlong {cube : BoneCube Rat} (h : cube.IsSized) (t : TextureAxis)
    {start length : Rat} (hstart : 0 ≤ start) (hlength : 0 ≤ length) (hsum : start + length ≤ 1) :
    (cube.cropAlong t start length).IsWithin cube := by
  have hsize : (cube.cropAlong t start length).size.get t.axis = length * cube.size.get t.axis :=
    Vec3.get_set_self _ _ _
  -- The part begins at a fraction of the extent, from the one side or from the other.
  obtain ⟨skipped, hskipped, hsum', horigin⟩ : ∃ skipped, 0 ≤ skipped ∧ skipped + length ≤ 1 ∧
      (cube.cropAlong t start length).origin.get t.axis =
        cube.origin.get t.axis + skipped * cube.size.get t.axis := by
    refine ⟨if t.forward then start else 1 - start - length, ?_, ?_, Vec3.get_set_self _ _ _⟩
    · split <;> linarith
    · split <;> linarith
  have hfull := h t.axis
  have hwithin : skipped * cube.size.get t.axis + length * cube.size.get t.axis ≤
      cube.size.get t.axis := by
    rw [← add_mul]
    exact mul_le_of_le_one_left hfull hsum'
  have hnonneg := mul_nonneg hskipped hfull
  refine ⟨fun axis => ?_, fun axis => ?_, fun axis => ?_⟩
  all_goals rcases eq_or_ne axis t.axis with rfl | hne
  · rw [hsize]
    exact mul_nonneg hlength hfull
  · rw [(alignedOn_cropAlong cube t start length hne).2]
    exact h axis
  · rw [horigin]
    linarith
  · rw [(alignedOn_cropAlong cube t start length hne).1]
  · rw [horigin, hsize]
    linarith
  · rw [(alignedOn_cropAlong cube t start length hne).1,
      (alignedOn_cropAlong cube t start length hne).2]

/-- What is left of a cube behind a part of a texture lies in the cube. -/
theorem isWithin_crop {cube : BoneCube Rat} (h : cube.IsSized) (f : Face) {part : Crop Rat}
    (hpart : part.IsPart) : (cube.crop f part).IsWithin cube := by
  cases hface : cube.face? f with
  | none =>
    rw [crop, hface]
    exact .refl h
  | some use =>
    have hfirst := isWithin_cropAlong h (use.axes f).1 hpart.left hpart.width_pos.le hpart.right
    rw [crop_eq hface]
    exact (isWithin_cropAlong hfirst.sized (use.axes f).2 hpart.top hpart.height_pos.le
      hpart.bottom).trans hfirst

end BoneCube

end BlockModels
