import BlockModels.Proofs.Mesh.Referencing
import BlockModels.Proofs.Mesh.Texels

/-!
# What a cropped cube shows

A crop takes a part of the rectangle of a face, and of the cube what lies behind it. The texture may
run along the axes of space or against them, and the face may turn it over besides; the cube is
cropped in the direction in which the face in the end shows the texture. So a point of the face that
is left shows what it showed before (`FaceUse.texel_of_isPart`).

The rectangle that is projected through the cube knows nothing of what the face turns over. What is
projected through the rest of the cube is the part that the crop takes, at the place that it has in
the rectangle when that is turned over as the face turns it (`Cube.cropped_faceRect`).
-/

namespace BlockModels

/-- The crop that takes a part from the place that it has when the rectangle is turned over. -/
def Crop.mirrored (part : Crop Rat) (flipU flipV : Bool) : Crop Rat :=
  { part with
    x := if flipU then 1 - part.x - part.w else part.x
    y := if flipV then 1 - part.y - part.h else part.y }

/-! ## One axis -/

/-- A cuboid is what is left of another one, on an axis of a texture, behind a part of the texture.
-/
structure TextureAxis.IsPart (t : TextureAxis) (part whole : Cuboid Rat) (start length : Rat) :
    Prop where
  pos_eq : part.pos.get t.axis = whole.pos.get t.axis +
    (if t.forward then start else 1 - start - length) * whole.size.get t.axis
  size_eq : part.size.get t.axis = length * whole.size.get t.axis

namespace TextureAxis

variable {t : TextureAxis} {part whole : Cuboid Rat} {start' length : Rat}

/-- Where the projection begins that is left, if the texture is turned over or not. -/
theorem start_of_isPart {flip : Bool} (h : (t.turn flip).IsPart part whole start' length) :
    t.start part = t.start whole +
      (if flip then 1 - start' - length else start') * whole.size.get t.axis := by
  obtain ⟨axis, forward⟩ := t
  obtain ⟨hpos, hsize⟩ := h
  simp only [turn] at hpos hsize
  simp only [start, Scalar.ofNat_rat]
  cases forward <;> cases flip <;> simp [hpos, hsize] <;> ring

/-- What a point of the rest shows of the part is what it showed of all. -/
theorem fraction_of_isPart (h : t.IsPart part whole start' length) {x : ℝ}
    (hx : part.Reaches t.axis x) :
    (start' + t.fraction part x * length) * whole.size.get t.axis =
      t.fraction whole x * whole.size.get t.axis := by
  obtain ⟨axis, forward⟩ := t
  obtain ⟨hpos, hsize⟩ := h
  simp only at hpos hsize hx ⊢
  rcases eq_or_ne (whole.size.get axis) 0 with hzero | hne
  · rw [hzero, Rat.cast_zero, mul_zero, mul_zero]
  have hne' : (whole.size.get axis : ℝ) ≠ 0 := Rat.cast_ne_zero.2 hne
  -- The way from the beginning of the rest is the way from the beginning of all without what was
  -- skipped. A rest without extent has no fractions, but one point only.
  have hway : (x - part.pos.get axis) / part.size.get axis * length =
      (x - whole.pos.get axis) / whole.size.get axis -
        (if forward then start' else 1 - start' - length : Rat) := by
    rcases eq_or_ne length 0 with hlength | hlength
    · rw [hlength, zero_mul] at hsize
      rw [hx.eq_of_size_eq_zero hsize, hpos, hlength]
      push_cast
      rw [add_sub_cancel_left, mul_div_cancel_right₀ _ hne', mul_zero, sub_self]
    · have hlength' : (length : ℝ) ≠ 0 := Rat.cast_ne_zero.2 hlength
      rw [hsize, hpos]
      push_cast
      field_simp
      ring
  cases forward with
  | false =>
    simp only [fraction, Bool.false_eq_true, ↓reduceIte, sub_mul, one_mul] at hway ⊢
    rw [hway]
    push_cast
    ring
  | true =>
    simp only [fraction, ↓reduceIte] at hway ⊢
    rw [hway]
    ring

/-- So the rest shows, of the part of an interval, what all showed of the interval: one that is so
many times as long as the extent. -/
theorem start_add_fraction_of_isPart (h : t.IsPart part whole start' length) {x : ℝ}
    (hx : part.Reaches t.axis x) (u k : Rat) {size : Rat}
    (hsize : size = whole.size.get t.axis * k) :
    ((u + start' * size : Rat) : ℝ) + t.fraction part x * (length * size : Rat) =
      u + t.fraction whole x * size := by
  calc ((u + start' * size : Rat) : ℝ) + t.fraction part x * (length * size : Rat)
      = u + (start' + t.fraction part x * length) * whole.size.get t.axis * k := by
        rw [hsize]
        push_cast
        ring
    _ = u + t.fraction whole x * whole.size.get t.axis * k := by rw [fraction_of_isPart h hx]
    _ = u + t.fraction whole x * size := by
        rw [hsize]
        push_cast
        ring

end TextureAxis

/-! ## Faces -/

section

variable {use : FaceUse} {f : Face} {rest whole : Cuboid Rat} {part : Crop Rat} {s : Vec2 Rat}

/-- What is projected through the rest of a cuboid is a part of what was projected through all of
it. -/
theorem projectedRect_of_isPart (hu : (use.axes f).1.IsPart rest whole part.x part.w)
    (hv : (use.axes f).2.IsPart rest whole part.y part.h) :
    projectedRect rest f =
      (part.mirrored (BoneCube.turned f use.flipU) (BoneCube.turned f use.flipV)).of
        (projectedRect whole f) := by
  rw [projectedRect_eq, projectedRect_eq, TextureAxis.start_of_isPart hu,
    TextureAxis.start_of_isPart hv]
  exact congrArg (Rect.mk _) (congrArg₂ Vec2.mk hu.size_eq hv.size_eq)

/-- The rest of a cuboid shows, of the part of the projection, what all of it showed of the
projection. -/
theorem FaceUse.texel_of_isPart (hu : (use.axes f).1.IsPart rest whole part.x part.w)
    (hv : (use.axes f).2.IsPart rest whole part.y part.h) {p : Axis → ℝ}
    (hp : p ∈ rest.surface f) :
    use.texel f rest (part.of (Cube.normalized s (projectedRect whole f))) p =
      use.texel f whole (Cube.normalized s (projectedRect whole f)) p := by
  obtain ⟨hne, hne'⟩ := f.axis_ne_textureAxes
  have hx := Cuboid.reaches_of_mem_surface hp hne.symm
  have hy := Cuboid.reaches_of_mem_surface hp hne'.symm
  rw [projectedRect_eq]
  exact Prod.ext
    (TextureAxis.start_add_fraction_of_isPart hu hx _ s.x⁻¹ (div_eq_mul_inv _ _))
    (TextureAxis.start_add_fraction_of_isPart hv hy _ s.y⁻¹ (div_eq_mul_inv _ _))

theorem Crop.of_normalized (part : Crop Rat) (s : Vec2 Rat) (r : Rect Rat) :
    part.of (Cube.normalized s r) = Cube.normalized s (part.of r) := by
  simp only [Crop.of, Cube.normalized, Vec2.zipWith, add_div, mul_div_assoc]

end

/-! ## Cubes of bones -/

namespace BoneCube

/-- The place and the extent of a cube in a bone. -/
def toCuboid {α : Type} (cube : BoneCube α) : Cuboid α := ⟨cube.origin, cube.size⟩

/-- Cropping leaves of a cube what is behind the crop on the axes of the texture. -/
theorem isPart_crop {cube : BoneCube Rat} {f : Face} {use : FaceUse} (h : cube.face? f = some use)
    (part : Crop Rat) :
    (use.axes f).1.IsPart (cube.crop f part).toCuboid cube.toCuboid part.x part.w ∧
      (use.axes f).2.IsPart (cube.crop f part).toCuboid cube.toCuboid part.y part.h := by
  have hcropped := isCropped_crop h part
  have hne := f.textureAxes_ne
  refine ⟨⟨?_, hcropped.width⟩, ?_, hcropped.height⟩
  · rw [crop_eq h]
    exact (alignedOn_cropAlong _ (use.axes f).2 _ _ hne).1.trans (Vec3.get_set_self _ _ _)
  · have hfirst := alignedOn_cropAlong cube (use.axes f).1 part.x part.w hne.symm
    rw [crop_eq h]
    refine (Vec3.get_set_self _ _ _).trans ?_
    exact congrArg₂ (fun pos size => pos + _ * size) hfirst.1 hfirst.2

end BoneCube

/-- A key that is paired with a position is found with it. -/
theorem exists_lookup_map_zip {κ β : Type} [BEq κ] [LawfulBEq κ] (g : κ → Nat → β) {keys : List κ}
    {positions : List Nat} (hlength : positions.length = keys.length) {k : κ} (hk : k ∈ keys) :
    ∃ i, ((keys.zip positions).map fun (k, i) => (k, g k i)).lookup k = some (g k i) := by
  induction keys generalizing positions with
  | nil => cases hk
  | cons key rest ih =>
    cases positions with
    | nil => cases hlength
    | cons i positions =>
      rw [List.zip_cons_cons, List.map_cons, List.lookup_cons]
      cases h : k == key with
      | true => exact ⟨i, by rw [eq_of_beq h]⟩
      | false =>
        exact ih (Nat.succ.inj hlength) (List.mem_of_ne_of_mem (beq_eq_false_iff_ne.1 h) hk)

namespace Cube

variable (c : Catalog Rat) (host : Block) (registry : Registry (TextureReference Rat))
  {cube : Cube Rat} {f : Face}

/-- The faces that are drawn are faces in the bone. -/
theorem exists_face?_toBoneCube (hf : f ∈ cube.visibleFaces) (scale : Rat) : ∃ i,
    ((cube.toBoneCube c host scale).run registry).value.1.face? f = some (cube.faceUse f i) := by
  have hnames : (cube.ownReferences c host).map (·.1) =
      Face.listed.filter cube.visibleFaces.contains := by
    simp only [ownReferences, faceReferences, faceRects, Noted.value_bind, Noted.value_pure,
      List.map_map]
    exact List.map_id _
  have hmem : f ∈ (cube.ownReferences c host).map (·.1) := hnames ▸ mem_filter_listed hf
  have hlength : (registry.insertAll ((cube.ownReferences c host).map (·.2))).1.length =
      ((cube.ownReferences c host).map (·.1)).length := by
    rw [Registry.length_insertAll, List.length_map, List.length_map]
  exact exists_lookup_map_zip cube.faceUse hlength hmem

/-- Without a move and a scale a cube has in the bone the place and the extent that it has. -/
theorem toCuboid_toBoneCube (hmove : cube.look.translate.getD (.fill 0) = .fill 0) :
    ((cube.toBoneCube c host 1).run registry).value.1.toCuboid = cube.toCuboid := by
  change Cuboid.mk ((cube.pos + cube.look.translate.getD (.fill 0)).scale 1) (cube.size.scale 1) = _
  have hscale : ∀ v : Vec3 Rat, v.scale 1 = v := fun v => by
    simp only [Vec3.scale, Vec3.map, mul_one]
  have hadd : ∀ v : Vec3 Rat, v + .fill 0 = v := fun v =>
    Vec3.eq_of_get fun axis => by cases axis <;> exact add_zero _
  rw [hmove, hscale, hscale, hadd]
  rfl

/-- Of a cube that is neither moved nor scaled, a face with a projected rectangle is cropped. What
is projected through the rest is the part of the rectangle that the crop takes, from the place that
it has when the rectangle is turned over as the cube says, and every point of the face that is left
shows of the part what it showed of the rectangle. -/
theorem cropped_faceRect (hprojected : cube.IsProjected f)
    (hmove : cube.look.translate.getD (.fill 0) = .fill 0) (hf : f ∈ cube.visibleFaces)
    (part : Crop Rat) (s : Vec2 Rat) :
    let built := ((cube.toBoneCube c host 1).run registry).value.1
    let rest := (built.crop f part).toCuboid
    let whole := normalized s (cube.faceRect f)
    ∃ use, built.face? f = some use ∧
      normalized s (faceRect { cube with pos := rest.pos, size := rest.size } f) =
        (part.mirrored (flips cube.look.flipHorizontal f) (flips cube.look.flipVertical f)).of
          whole ∧
      ∀ p ∈ rest.surface f,
        use.texel f rest (part.of whole) p = use.texel f cube.toCuboid whole p := by
  intro built rest whole
  obtain ⟨i, hface⟩ := exists_face?_toBoneCube c host registry hf 1
  obtain ⟨hu, hv⟩ := BoneCube.isPart_crop hface part
  rw [toCuboid_toBoneCube c host registry hmove] at hu hv
  have hrest : IsProjected { cube with pos := rest.pos, size := rest.size } f :=
    ⟨hprojected.boxUv, hprojected.uv, hprojected.uvSize⟩
  have hwhole : whole = normalized s (projectedRect cube.toCuboid f) :=
    congrArg (normalized s) hprojected.faceRect_eq
  obtain ⟨hturnU, hturnV⟩ := cube.turned_faceUse f i
  refine ⟨cube.faceUse f i, hface, ?_, fun p hp => ?_⟩
  · rw [hrest.faceRect_eq, hwhole, Crop.of_normalized, ← hturnU, ← hturnV]
    exact congrArg (normalized s) (projectedRect_of_isPart hu hv)
  · rw [hwhole]
    exact FaceUse.texel_of_isPart hu hv hp

/-- A flat picture that is turned over from left to right: a part of the left half of its texture is
left, and in the projection this is a part of the right half. -/
theorem cropped_faceRect_of_picture :
    let look : Template Rat := { flipHorizontal := some (.ofNames ["north"]) }
    let cube : Cube Rat := { pos := ⟨2, 3, 5⟩, size := ⟨8, 4, 0⟩, look, shape := "picture" }
    let c : Catalog Rat := {}
    let built := ((cube.toBoneCube c default 1).run .empty).value.1
    let part : Crop Rat := ⟨1 / 8, 1 / 4, 1 / 4, 1 / 2⟩
    let rest := (built.crop .north part).toCuboid
    let whole := normalized (.fill 16) (cube.faceRect .north)
    cube.IsProjected .north ∧ look.translate.getD (.fill 0) = .fill 0 ∧
      .north ∈ cube.visibleFaces ∧ rest = ⟨⟨3, 4, 5⟩, ⟨2, 2, 0⟩⟩ ∧
      part.mirrored true false = ⟨5 / 8, 1 / 4, 1 / 4, 1 / 2⟩ ∧
      ∃ use, built.face? .north = some use ∧
        normalized (.fill 16) (faceRect { cube with pos := rest.pos, size := rest.size } .north) =
          (part.mirrored true false).of whole ∧
        ∀ p ∈ rest.surface .north,
          use.texel .north rest (part.of whole) p = use.texel .north cube.toCuboid whole p := by
  intro look cube c built part rest whole
  have hprojected : cube.IsProjected .north := ⟨rfl, rfl, rfl⟩
  have hvisible : Face.north ∈ cube.visibleFaces := by decide +kernel
  have hflips : flips look.flipHorizontal .north = true := by decide +kernel
  have hmain := cropped_faceRect c default .empty hprojected rfl hvisible part (.fill 16)
  refine ⟨hprojected, rfl, hvisible, by decide +kernel, by decide +kernel, ?_⟩
  rw [hflips] at hmain
  exact hmain

end Cube

end BlockModels
