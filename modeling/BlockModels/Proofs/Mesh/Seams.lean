import BlockModels.Proofs.Mesh.Parts
import BlockModels.Proofs.Mesh.Texels

/-!
# Merged cubes look like their parts

Where one cuboid continues another, so do the rectangles that are projected through them: along the
axis on which they meet, the rectangles of the two lie side by side and make that of the extended
cuboid, and the faces at its two ends keep their rectangles (`Cuboid.JoinsProjections`). The texture
may run along the axis or against it.

So merging cannot be seen. A cube that has only a place and a size shows projected rectangles, and a
point of its surface shows the same whichever cuboid it belongs to (`KeepsTexels`): every point on
the surface of a merged cuboid lies on the surface of one of its parts, and every cube that has the
point on its surface shows there what the merged cuboid shows (`merging_keepsTexels`).
-/

namespace BlockModels

/-! ## Rectangles side by side -/

namespace Rect

/-- What a rectangle reaches over from left to right. -/
def across (r : Rect Rat) : Set ℝ := Set.Icc (r.uv.x : ℝ) (r.uv.x + r.size.x)

/-- What a rectangle reaches over from top to bottom. -/
def down (r : Rect Rat) : Set ℝ := Set.Icc (r.uv.y : ℝ) (r.uv.y + r.size.y)

/-- The points of a rectangle, with its edges. -/
def area (r : Rect Rat) : Set (ℝ × ℝ) := r.across ×ˢ r.down

/-- One of the four edges of a rectangle. -/
inductive IsEdge (r : Rect Rat) : Set (ℝ × ℝ) → Prop
  | left : IsEdge r ({(r.uv.x : ℝ)} ×ˢ r.down)
  | right : IsEdge r ({(r.uv.x + r.size.x : ℝ)} ×ˢ r.down)
  | top : IsEdge r (r.across ×ˢ {(r.uv.y : ℝ)})
  | bottom : IsEdge r (r.across ×ˢ {(r.uv.y + r.size.y : ℝ)})

/-- A rectangle covers what two others cover, which have an edge of both in common and nothing else.
-/
structure IsJoinOf (whole r s : Rect Rat) : Prop where
  area_eq : whole.area = r.area ∪ s.area
  isEdge_first : r.IsEdge (r.area ∩ s.area)
  isEdge_second : s.IsEdge (r.area ∩ s.area)

variable {whole r s : Rect Rat}

theorem IsJoinOf.symm (h : whole.IsJoinOf r s) : whole.IsJoinOf s r where
  area_eq := h.area_eq.trans (Set.union_comm _ _)
  isEdge_first := Set.inter_comm r.area s.area ▸ h.isEdge_second
  isEdge_second := Set.inter_comm r.area s.area ▸ h.isEdge_first

variable {x y w w' h h' : Rat}

/-- Two rectangles of one height, the second one to the right of the first. -/
theorem isJoinOf_right (hw : 0 ≤ w) (hw' : 0 ≤ w') :
    IsJoinOf ⟨⟨x, y⟩, ⟨w + w', h⟩⟩ ⟨⟨x, y⟩, ⟨w, h⟩⟩ ⟨⟨x + w, y⟩, ⟨w', h⟩⟩ := by
  have hfirst : (x : ℝ) ≤ x + w := le_add_of_nonneg_right (Rat.cast_nonneg.2 hw)
  have hsecond : (x + w : ℝ) ≤ x + w + w' := le_add_of_nonneg_right (Rat.cast_nonneg.2 hw')
  have hinter : area ⟨⟨x, y⟩, ⟨w, h⟩⟩ ∩ area ⟨⟨x + w, y⟩, ⟨w', h⟩⟩ =
      {(x + w : ℝ)} ×ˢ Set.Icc (y : ℝ) (y + h) := by
    simp only [area, across, down, ← Set.inter_prod, Rat.cast_add,
      Set.Icc_inter_Icc_eq_singleton hfirst hsecond]
  refine ⟨?_, ?_, ?_⟩
  · simp only [area, across, down, ← Set.union_prod, Rat.cast_add,
      Set.Icc_union_Icc_eq_Icc hfirst hsecond, ← add_assoc]
  · rw [hinter]
    exact .right
  · rw [hinter, ← Rat.cast_add x]
    exact .left

/-- Two rectangles of one width, the second one below the first. -/
theorem isJoinOf_below (hh : 0 ≤ h) (hh' : 0 ≤ h') :
    IsJoinOf ⟨⟨x, y⟩, ⟨w, h + h'⟩⟩ ⟨⟨x, y⟩, ⟨w, h⟩⟩ ⟨⟨x, y + h⟩, ⟨w, h'⟩⟩ := by
  have hfirst : (y : ℝ) ≤ y + h := le_add_of_nonneg_right (Rat.cast_nonneg.2 hh)
  have hsecond : (y + h : ℝ) ≤ y + h + h' := le_add_of_nonneg_right (Rat.cast_nonneg.2 hh')
  have hinter : area ⟨⟨x, y⟩, ⟨w, h⟩⟩ ∩ area ⟨⟨x, y + h⟩, ⟨w, h'⟩⟩ =
      Set.Icc (x : ℝ) (x + w) ×ˢ {(y + h : ℝ)} := by
    simp only [area, across, down, ← Set.prod_inter, Rat.cast_add,
      Set.Icc_inter_Icc_eq_singleton hfirst hsecond]
  refine ⟨?_, ?_, ?_⟩
  · simp only [area, across, down, ← Set.prod_union, Rat.cast_add,
      Set.Icc_union_Icc_eq_Icc hfirst hsecond, ← add_assoc]
  · rw [hinter]
    exact .bottom
  · rw [hinter, ← Rat.cast_add y]
    exact .top

end Rect

/-! ## Projections side by side -/

section

variable {c d grown : Cuboid Rat} {axis : Axis}

namespace TextureAxis

variable {t : TextureAxis}

/-- Along the axis of a continuation the two projections follow each other, in one order or the
other. -/
theorem start_extend (h : c.continuedBy d t.axis = true) :
    (t.start c + c.size.get t.axis = t.start d ∧ t.start (c.extend d t.axis) = t.start c) ∨
      t.start d + d.size.get t.axis = t.start c ∧ t.start (c.extend d t.axis) = t.start d := by
  obtain ⟨-, hstop⟩ := Cuboid.continuedBy_iff_get.1 h
  have hsize := Cuboid.size_extend_self c d t.axis
  have hpos : (c.extend d t.axis).pos = c.pos := rfl
  unfold start
  rw [hsize, hpos, Scalar.ofNat_rat]
  split
  · exact .inl ⟨hstop, rfl⟩
  · rw [← hstop]
    exact .inr ⟨by ring, by ring⟩

/-- On another axis the two projections begin at the same place. -/
theorem start_extend_of_ne (h : c.continuedBy d axis = true) (hne : t.axis ≠ axis) :
    t.start d = t.start c ∧ t.start (c.extend d axis) = t.start c := by
  obtain ⟨hpos, hsize⟩ := (Cuboid.continuedBy_iff_get.1 h).1 t.axis hne
  have hpos' : (c.extend d axis).pos = c.pos := rfl
  unfold start
  rw [Cuboid.size_extend_of_ne hne, hpos', hpos, hsize]
  exact ⟨rfl, rfl⟩

end TextureAxis

namespace Cuboid

/-- How the faces of two cuboids show on the faces of the one that they are joined to, on an axis:
of the four faces along it the rectangles are put together, and the two others are faces of the
cuboids at its ends. -/
structure JoinsProjections (grown c d : Cuboid Rat) (axis : Axis) : Prop where
  along : ∀ f : Face, f.axis ≠ axis →
    (projectedRect grown f).IsJoinOf (projectedRect c f) (projectedRect d f)
  low : ∀ f : Face, f.axis = axis → f.isLow = true → projectedRect grown f = projectedRect c f
  high : ∀ f : Face, f.axis = axis → f.isLow = false → projectedRect grown f = projectedRect d f

/-- An extended cuboid shows the projections of its two parts. -/
theorem joinsProjections_extend (hc : ∀ a, 0 < c.size.get a) (hd : ∀ a, 0 < d.size.get a)
    (h : c.continuedBy d axis = true) : (c.extend d axis).JoinsProjections c d axis := by
  have hsize : ∀ a, a ≠ axis → (c.extend d axis).size.get a = c.size.get a ∧
      d.size.get a = c.size.get a := fun a ha =>
    ⟨size_extend_of_ne ha c d, ((continuedBy_iff_get.1 h).1 a ha).2.symm⟩
  -- A face at an end: neither axis of the texture runs along the axis.
  have hend : ∀ f : Face, f.axis = axis →
      projectedRect (c.extend d axis) f = projectedRect c f ∧
        projectedRect d f = projectedRect c f := by
    rintro f rfl
    have hu := f.axis_ne_textureAxes.1.symm
    have hv := f.axis_ne_textureAxes.2.symm
    simp only [projectedRect_eq, TextureAxis.start_extend_of_ne h hu,
      TextureAxis.start_extend_of_ne h hv, hsize _ hu, hsize _ hv, and_self]
  refine ⟨fun f hf => ?_, fun f hf _ => (hend f hf).1,
    fun f hf _ => (hend f hf).1.trans (hend f hf).2.symm⟩
  rcases Face.textureAxes_eq_or_eq hf with rfl | rfl
  -- One of the two axes of the texture runs along the axis, forward or back.
  · have hne := f.textureAxes_ne.symm
    obtain ⟨hv, hv'⟩ := TextureAxis.start_extend_of_ne h hne
    obtain ⟨hw, hw'⟩ := hsize _ hne
    rw [projectedRect_eq, projectedRect_eq c, projectedRect_eq d, size_extend_self, hv, hv', hw,
      hw']
    rcases TextureAxis.start_extend h with ⟨hstop, hu⟩ | ⟨hstop, hu⟩
    · rw [hu, ← hstop]
      exact Rect.isJoinOf_right (hc _).le (hd _).le
    · rw [hu, ← hstop, add_comm]
      exact (Rect.isJoinOf_right (hd _).le (hc _).le).symm
  · have hne := f.textureAxes_ne
    obtain ⟨hu, hu'⟩ := TextureAxis.start_extend_of_ne h hne
    obtain ⟨hw, hw'⟩ := hsize _ hne
    rw [projectedRect_eq, projectedRect_eq c, projectedRect_eq d, size_extend_self, hu, hu', hw,
      hw']
    rcases TextureAxis.start_extend h with ⟨hstop, hv⟩ | ⟨hstop, hv⟩
    · rw [hv, ← hstop]
      exact Rect.isJoinOf_below (hc _).le (hd _).le
    · rw [hv, ← hstop, add_comm (c.size.get _)]
      exact (Rect.isJoinOf_below (hd _).le (hc _).le).symm

/-! ## Surfaces side by side -/

variable {f : Face} {p : Axis → ℝ} {a : Axis} {x : ℝ}

theorem faceReaches_iff_of_eq (hpos : c.pos.get a = d.pos.get a)
    (hsize : c.size.get a = d.size.get a) : c.FaceReaches f a x ↔ d.FaceReaches f a x := by
  have hstop : c.stop a = d.stop a := by rw [stop, stop, hpos, hsize]
  unfold FaceReaches
  split
  next h =>
    subst h
    rw [level, level, hpos, hstop]
  next => rw [Reaches, Reaches, hpos, hstop]

/-- On the axis of a continuation a point of a face of the extended cuboid is beside the first part
or beside the second. -/
theorem faceReaches_of_extend (hstop : c.stop axis = d.pos.get axis)
    (h : (c.extend d axis).FaceReaches f axis x) :
    c.FaceReaches f axis x ∨ d.FaceReaches f axis x := by
  have hpos : (c.extend d axis).pos = c.pos := rfl
  have hstop' : (c.extend d axis).stop axis = d.stop axis := by
    rw [stop, stop, size_extend_self, hpos, ← hstop, stop, add_assoc]
  unfold FaceReaches at h ⊢
  split at h
  -- A face at one of the two ends.
  next hf =>
    subst hf
    rw [if_pos rfl, if_pos rfl]
    cases hlow : f.isLow with
    | true =>
      rw [level, hlow, if_pos rfl, hpos] at h
      exact .inl (by rw [h, level, hlow, if_pos rfl])
    | false =>
      rw [level, hlow, if_neg Bool.false_ne_true, hstop'] at h
      exact .inr (by rw [h, level, hlow, if_neg Bool.false_ne_true])
  next hne =>
    rw [if_neg hne, if_neg hne, Reaches, Reaches, ← hstop]
    rw [Reaches, hpos, hstop'] at h
    exact Set.uIcc_subset_uIcc_union_uIcc h

/-- Every point of a face of an extended cuboid is a point of that face of one of its parts. -/
theorem mem_surface_of_absorb? (h : c.absorb? d = some grown) (hp : p ∈ grown.surface f) :
    p ∈ c.surface f ∨ p ∈ d.surface f := by
  obtain ⟨axis, haxis, rfl⟩ := exists_axis_of_absorb? h
  obtain ⟨hother, hstop⟩ := continuedBy_iff_get.1 haxis
  have hfirst : ∀ a, a ≠ axis → c.FaceReaches f a (p a) := by
    intro a ha
    have hpos : (c.extend d axis).pos.get a = c.pos.get a := rfl
    exact (faceReaches_iff_of_eq hpos (size_extend_of_ne ha c d)).1 (hp a)
  have hsecond : ∀ a, a ≠ axis → d.FaceReaches f a (p a) := fun a ha =>
    (faceReaches_iff_of_eq (hother a ha).1 (hother a ha).2).1 (hfirst a ha)
  refine (faceReaches_of_extend hstop (hp axis)).imp (fun h a => ?_) fun h a => ?_
  · rcases eq_or_ne a axis with rfl | ha
    · exact h
    · exact hfirst a ha
  · rcases eq_or_ne a axis with rfl | ha
    · exact h
    · exact hsecond a ha

/-- Every point on the surface of a cuboid is on the surface of one of its parts. -/
theorem IsMadeOf.exists_mem_surface {parts : List (Cuboid Rat)} (h : c.IsMadeOf parts)
    (hp : p ∈ c.surface f) : ∃ d ∈ parts, p ∈ d.surface f := by
  induction h with
  | whole c => exact ⟨c, List.mem_singleton_self c, hp⟩
  | joined _ _ h ihc ihd =>
    rcases mem_surface_of_absorb? h hp with hp | hp
    · obtain ⟨e, he, hp⟩ := ihc hp
      exact ⟨e, List.mem_append_left _ he, hp⟩
    · obtain ⟨e, he, hp⟩ := ihd hp
      exact ⟨e, List.mem_append_right _ he, hp⟩

end Cuboid

end

/-! ## Cubes with a place and a size only -/

namespace Cube

variable {cube : Cube Rat} {f : Face} {p : Axis → ℝ}

/-- A cube that says nothing about its faces shows what is projected onto it. -/
theorem texelAt?_eq_of_look_eq (hlook : cube.look = {}) (hf : f ∈ cube.visibleFaces)
    (hp : p ∈ cube.toCuboid.surface f) :
    cube.texelAt? f p = some (normalizedPoint defaultTextureSize (f.project p)) := by
  have hprojected : cube.IsProjected f := by
    constructor <;> rw [hlook] <;> rfl
  have hsize : cube.textureSize.value = defaultTextureSize := by
    rw [textureSize, hlook]
    rfl
  rw [hprojected.texelAt?_eq hf (by rw [hlook]; rfl) (by rw [hlook]; rfl) hp, hsize]

theorem look_eq_of_isBare (h : cube.isBare = true) : cube.look = {} := by
  simp only [isBare, Bool.and_eq_true] at h
  exact Template.isBlank_iff.1 h.1.1.1.1

/-- A cube with a place and a size only draws all of its faces. -/
theorem mem_visibleFaces_of_isBare (h : cube.isBare = true) (f : Face) : f ∈ cube.visibleFaces := by
  have hlook := look_eq_of_isBare h
  simp only [isBare, Bool.and_eq_true, List.all_eq_true, Bool.not_eq_true'] at h
  have hnone : Axis.all.find? (fun axis => cube.size.get axis == 0) = none :=
    List.find?_eq_none.2 fun axis haxis => by
      rw [h.2 axis haxis]
      exact Bool.false_ne_true
  rw [visibleFaces, hnone]
  refine List.mem_filter.2 ⟨f.mem_all, ?_⟩
  rw [faceSelector, hlook]
  cases f <;> decide

end Cube

/-- A cuboid that was merged from cubes shows what they show. -/
structure KeepsTexels (shape : String) (cubes : List (Cube Rat)) (m : Cuboid Rat)
    (parts : List (Cuboid Rat)) : Prop where
  made : m.IsMadeOf parts
  /-- Every point on its surface is on the surface of a part. -/
  exists_part : ∀ (f : Face), ∀ p ∈ m.surface f, ∃ c ∈ parts, p ∈ c.surface f
  /-- A cube on whose surface a point is shows there what the cuboid shows. -/
  texel_eq : ∀ f ∈ (Cube.ofCuboid shape m).visibleFaces, ∀ p ∈ m.surface f, ∀ cube ∈ cubes,
    p ∈ cube.toCuboid.surface f →
      ∃ q, (Cube.ofCuboid shape m).texelAt? f p = some q ∧ cube.texelAt? f p = some q

/-- Merging cannot be seen. The projections on a cuboid that takes over another one are those on the
two, put together; and cubes that have only a place and a size show the same at every point of their
surface after they were merged. -/
theorem merging_keepsTexels :
    (∀ c d grown : Cuboid Rat, (∀ a, 0 < c.size.get a) → (∀ a, 0 < d.size.get a) →
      c.absorb? d = some grown →
        ∃ axis, c.continuedBy d axis = true ∧ grown = c.extend d axis ∧
          grown.JoinsProjections c d axis) ∧
      ∀ (shape : String) (cubes : List (Cube Rat)), (∀ cube ∈ cubes, cube.isBare = true) →
        ∃ parts, List.Forall₂ (KeepsTexels shape cubes)
            (mergeCuboids (cubes.map Cube.toCuboid)) parts ∧
          parts.flatten.Perm (cubes.map Cube.toCuboid) := by
  refine ⟨fun c d grown hc hd h => ?_, fun shape cubes hbare => ?_⟩
  · obtain ⟨axis, haxis, rfl⟩ := Cuboid.exists_axis_of_absorb? h
    exact ⟨axis, haxis, rfl, Cuboid.joinsProjections_extend hc hd haxis⟩
  · obtain ⟨parts, hmade, hperm⟩ := exists_parts_mergeCuboids (cubes.map Cube.toCuboid)
    refine ⟨parts, hmade.imp fun m own h => ⟨h, fun f p hp => h.exists_mem_surface hp, ?_⟩, hperm⟩
    intro f hf p hp cube hcube hp'
    have hcube := hbare cube hcube
    exact ⟨_, Cube.texelAt?_eq_of_look_eq rfl hf hp,
      Cube.texelAt?_eq_of_look_eq (Cube.look_eq_of_isBare hcube)
        (Cube.mem_visibleFaces_of_isBare hcube f) hp'⟩

/-- Two slabs that stand side by side, the second one listed first. -/
theorem merging_keepsTexels_of_slabs :
    let slab (x : Rat) : Cube Rat := { pos := ⟨x, 0, 0⟩, size := ⟨4, 8, 16⟩, shape := "slabs" }
    let grown : Cuboid Rat := ⟨⟨0, 0, 0⟩, ⟨8, 8, 16⟩⟩
    let cubes := [slab 4, slab 0]
    ((∀ a, 0 < (slab 0).toCuboid.size.get a) ∧ (∀ a, 0 < (slab 4).toCuboid.size.get a) ∧
        (slab 0).toCuboid.absorb? (slab 4).toCuboid = some grown ∧
        ∃ axis, (slab 0).toCuboid.continuedBy (slab 4).toCuboid axis = true ∧
          grown = (slab 0).toCuboid.extend (slab 4).toCuboid axis ∧
          grown.JoinsProjections (slab 0).toCuboid (slab 4).toCuboid axis) ∧
      (∀ cube ∈ cubes, cube.isBare = true) ∧ mergeCuboids (cubes.map Cube.toCuboid) = [grown] ∧
      ∃ parts, List.Forall₂ (KeepsTexels "slabs" cubes)
          (mergeCuboids (cubes.map Cube.toCuboid)) parts ∧
        parts.flatten.Perm (cubes.map Cube.toCuboid) := by
  intro slab grown cubes
  have hpos : ∀ a, 0 < (Vec3.mk (4 : Rat) 8 16).get a := by
    intro a
    cases a <;> decide +kernel
  have habsorb : (slab 0).toCuboid.absorb? (slab 4).toCuboid = some grown := by decide +kernel
  have hbare : ∀ cube ∈ cubes, cube.isBare = true :=
    List.forall_mem_cons.2 ⟨by decide +kernel, List.forall_mem_singleton.2 (by decide +kernel)⟩
  exact ⟨⟨hpos, hpos, habsorb, merging_keepsTexels.1 _ _ _ hpos hpos habsorb⟩, hbare,
    by decide +kernel, merging_keepsTexels.2 "slabs" cubes hbare⟩

end BlockModels
