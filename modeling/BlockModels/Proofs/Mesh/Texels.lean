import BlockModels.Mesh.Texturing
import BlockModels.Proofs.Mesh.Merging
import BlockModels.Proofs.Mesh.Trimming

/-!
# What faces show

A face shows a rectangle of a texture. Each axis of the texture runs along an axis of space, forward
or back (`Face.textureAxes`), and the other way if the face turns the texture over
(`FaceUse.axes`), so at every point of the face it shows one point of the rectangle
(`FaceUse.texel`).

The rectangle that is projected through a cuboid follows the same directions (`projectedRect_eq`).
So in exact arithmetic a face that shows it shows at a point what lies there on the projection,
whatever the cuboid is (`FaceUse.texel_projectedRect`).
-/

namespace BlockModels

/-! ## Directions -/

section

variable {α : Type} [Scalar α]

/-- Where the rectangle begins that is projected through a cuboid, on one axis. -/
def TextureAxis.start (t : TextureAxis) (c : Cuboid α) : α :=
  if t.forward then c.pos.get t.axis
  else Scalar.ofNat 16 - c.pos.get t.axis - c.size.get t.axis

/-- The projection follows the directions in which a texture lies on the faces. -/
theorem projectedRect_eq (c : Cuboid α) (f : Face) : projectedRect c f =
    ⟨⟨f.textureAxes.1.start c, f.textureAxes.2.start c⟩,
      ⟨c.size.get f.textureAxes.1.axis, c.size.get f.textureAxes.2.axis⟩⟩ := by
  cases f <;> rfl

end

/-! ## Points -/

/-- How far along a cuboid a coordinate lies on an axis of a texture, in parts of the extent. -/
noncomputable def TextureAxis.fraction (t : TextureAxis) (c : Cuboid Rat) (x : ℝ) : ℝ :=
  let part := (x - c.pos.get t.axis) / c.size.get t.axis
  if t.forward then part else 1 - part

/-- The point of a rectangle of a texture that a face of a cuboid shows at a point of space. -/
noncomputable def FaceUse.texel (use : FaceUse) (f : Face) (c : Cuboid Rat) (r : Rect Rat)
    (p : Axis → ℝ) : ℝ × ℝ :=
  (r.uv.x + (use.axes f).1.fraction c (p f.textureAxes.1.axis) * r.size.x,
    r.uv.y + (use.axes f).2.fraction c (p f.textureAxes.2.axis) * r.size.y)

/-- A point of a texture in parts of its size. -/
noncomputable def normalizedPoint (s : Vec2 Rat) (q : ℝ × ℝ) : ℝ × ℝ := (q.1 / s.x, q.2 / s.y)

/-- What lies at a coordinate of space when a texture is projected through the block. -/
noncomputable def TextureAxis.project (t : TextureAxis) (x : ℝ) : ℝ :=
  if t.forward then x else 16 - x

/-- What is seen at a point from the side of a face when a texture is projected through the block.
-/
noncomputable def Face.project (f : Face) (p : Axis → ℝ) : ℝ × ℝ :=
  (f.textureAxes.1.project (p f.textureAxes.1.axis),
    f.textureAxes.2.project (p f.textureAxes.2.axis))

/-- The face is at the low end of its axis. -/
def Face.isLow : Face → Bool
  | .west | .down | .north => true
  | .east | .up | .south => false

namespace Cuboid

/-- Where a face of a cuboid lies on the axis along which it looks. -/
def level (c : Cuboid Rat) (f : Face) : Rat :=
  if f.isLow then c.pos.get f.axis else c.stop f.axis

/-- A coordinate lies between the two ends of a cuboid on an axis, both included. -/
def Reaches (c : Cuboid Rat) (axis : Axis) (x : ℝ) : Prop :=
  x ∈ Set.uIcc (c.pos.get axis : ℝ) (c.stop axis : ℝ)

/-- A coordinate of a point of a face: on the axis along which the face looks it is where the face
lies, on the others it is between the two ends. -/
def FaceReaches (c : Cuboid Rat) (f : Face) (axis : Axis) (x : ℝ) : Prop :=
  if axis = f.axis then x = c.level f else c.Reaches axis x

/-- The points of a face of a cuboid. -/
def surface (c : Cuboid Rat) (f : Face) : Set (Axis → ℝ) :=
  {p | ∀ axis, c.FaceReaches f axis (p axis)}

variable {c : Cuboid Rat} {axis : Axis} {x : ℝ}

/-- A cuboid without extent on an axis reaches no further than its place. -/
theorem Reaches.eq_of_size_eq_zero (h : c.Reaches axis x) (hsize : c.size.get axis = 0) :
    x = c.pos.get axis := by
  rw [Reaches, stop, hsize, add_zero, Set.uIcc_self] at h
  exact h

/-- On the axes of its texture a face reaches as far as the cuboid. -/
theorem reaches_of_mem_surface {f : Face} {p : Axis → ℝ} (h : p ∈ c.surface f)
    (hne : axis ≠ f.axis) : c.Reaches axis (p axis) := by
  have hp := h axis
  rwa [FaceReaches, if_neg hne] at hp

end Cuboid

/-! ## One axis -/

namespace TextureAxis

variable {t : TextureAxis} {c : Cuboid Rat} {x : ℝ}

/-- The fractions of the projected rectangle lie where they lie on the cuboid. -/
theorem start_add_fraction (h : c.Reaches t.axis x) :
    ((t.start c : Rat) : ℝ) + t.fraction c x * c.size.get t.axis = t.project x := by
  have hpart : (x - c.pos.get t.axis) / (c.size.get t.axis : ℝ) * c.size.get t.axis =
      x - c.pos.get t.axis := by
    rcases eq_or_ne (c.size.get t.axis) 0 with hsize | hsize
    · rw [h.eq_of_size_eq_zero hsize, sub_self, zero_div, zero_mul]
    · exact div_mul_cancel₀ _ (Rat.cast_ne_zero.2 hsize)
  obtain ⟨axis, forward⟩ := t
  cases forward with
  | false =>
    simp only [fraction, start, project, Bool.false_eq_true, ↓reduceIte, sub_mul, one_mul, hpart,
      Scalar.ofNat_rat]
    push_cast
    ring
  | true =>
    simp only [fraction, start, project, ↓reduceIte, hpart]
    ring

end TextureAxis

/-! ## Faces -/

/-- A texture is not turned over on a face if its two axes run as the projection does. -/
theorem FaceUse.axes_eq {use : FaceUse} {f : Face} (hu : BoneCube.turned f use.flipU = false)
    (hv : BoneCube.turned f use.flipV = false) : use.axes f = f.textureAxes := by
  rw [axes, hu, hv]
  cases f <;> rfl

/-- A face that shows what is projected through a cuboid shows what lies at the point, wherever the
cuboid begins and however large it is. -/
theorem FaceUse.texel_projectedRect {use : FaceUse} {f : Face}
    (hu : BoneCube.turned f use.flipU = false) (hv : BoneCube.turned f use.flipV = false)
    {c : Cuboid Rat} {p : Axis → ℝ} (hp : p ∈ c.surface f) :
    use.texel f c (projectedRect c f) p = f.project p := by
  rw [texel, axes_eq hu hv, projectedRect_eq]
  obtain ⟨hu, hv⟩ := f.axis_ne_textureAxes
  exact Prod.ext
    (TextureAxis.start_add_fraction (Cuboid.reaches_of_mem_surface hp hu.symm))
    (TextureAxis.start_add_fraction (Cuboid.reaches_of_mem_surface hp hv.symm))

/-- A point of a normalised rectangle is the normalised point. -/
theorem FaceUse.texel_normalized (use : FaceUse) (f : Face) (c : Cuboid Rat) (s : Vec2 Rat)
    (r : Rect Rat) (p : Axis → ℝ) :
    use.texel f c (Cube.normalized s r) p = normalizedPoint s (use.texel f c r p) := by
  refine Prod.ext ?_ ?_
  · simp only [texel, Cube.normalized, normalizedPoint, Vec2.zipWith, Rat.cast_div]
    ring
  · simp only [texel, Cube.normalized, normalizedPoint, Vec2.zipWith, Rat.cast_div]
    ring

/-! ## Cubes -/

namespace Cube

variable {cube : Cube Rat} {f : Face} {p : Axis → ℝ}

/-- Nothing says where the rectangle of a face lies on the texture, so it is projected. -/
structure IsProjected (cube : Cube Rat) (f : Face) : Prop where
  boxUv : cube.look.boxUv = none
  uv : faceValue? cube.look.uv f = none
  uvSize : faceValue? cube.look.uvSizes f = none

/-- The rectangle of a face that is projected. -/
theorem IsProjected.faceRect_eq (h : cube.IsProjected f) :
    cube.faceRect f = projectedRect cube.toCuboid f := by
  rw [faceRect, h.boxUv]
  simp only [h.uv, h.uvSize, Option.getD_none]

/-- A face turns its texture over as the template of the cube says. -/
theorem turned_faceUse (cube : Cube Rat) (f : Face) (i : Nat) :
    BoneCube.turned f (cube.faceUse f i).flipU = flips cube.look.flipHorizontal f ∧
      BoneCube.turned f (cube.faceUse f i).flipV = flips cube.look.flipVertical f := by
  simp only [BoneCube.turned, faceUse]
  cases f.isVertical <;> simp

/-- A face that is drawn is found when the faces are visited in the order of tables. -/
theorem mem_filter_listed (h : f ∈ cube.visibleFaces) :
    f ∈ Face.listed.filter cube.visibleFaces.contains :=
  List.mem_filter.2 ⟨f.mem_listed, List.contains_iff_mem.2 h⟩

/-- A face that is drawn has its normalised rectangle. -/
theorem lookup_faceRects (h : f ∈ cube.visibleFaces) : cube.faceRects.value.lookup f =
    some (normalized cube.textureSize.value (cube.faceRect f)) :=
  List.lookup_graph _ (mem_filter_listed h)

/-- The point of the texture, in parts of its size, that a cube shows at a point of a face, if it
draws that face. -/
noncomputable def texelAt? (cube : Cube Rat) (f : Face) (p : Axis → ℝ) : Option (ℝ × ℝ) :=
  (cube.faceRects.value.lookup f).map fun r => (cube.faceUse f 0).texel f cube.toCuboid r p

/-- What a cube shows that turns nothing over depends on the point only. -/
theorem IsProjected.texelAt?_eq (h : cube.IsProjected f) (hf : f ∈ cube.visibleFaces)
    (hu : flips cube.look.flipHorizontal f = false) (hv : flips cube.look.flipVertical f = false)
    (hp : p ∈ cube.toCuboid.surface f) :
    cube.texelAt? f p = some (normalizedPoint cube.textureSize.value (f.project p)) := by
  obtain ⟨hturned, hturned'⟩ := cube.turned_faceUse f 0
  rw [texelAt?, lookup_faceRects hf, Option.map_some, h.faceRect_eq, FaceUse.texel_normalized,
    FaceUse.texel_projectedRect (hturned.trans hu) (hturned'.trans hv) hp]

end Cube

end BlockModels
