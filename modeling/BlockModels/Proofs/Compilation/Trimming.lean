import BlockModels.Proofs.Compilation.Joining
import BlockModels.Proofs.Mesh.Trimming

/-!
# The cubes that a run trims

Whether a texture is trimmed is found out from its pixels, for each fragment, and many faces may
show one fragment. That it may be trimmed is said by the cube, for each face, and only of a face
that is alone. The one thing that leads from there to here is that a reference and its fragment are
croppable if the face is: this is part of how they are written, so no face shares a fragment with
one that differs in it. So a face whose place carries a crop is alone on its cube, and the cube is
trimmed with it (`Compilation.Trims`).
-/

namespace BlockModels

section

variable {α : Type} [Scalar α]

/-- The crop that the place of a face carries. -/
def Compilation.cropOf? (r : Compilation α) (face : Face × FaceUse) : Option (Crop α) :=
  (r.placements[face.2.texture]?).bind (·.crop)

/-- A cube of a run, and what it was before. A face whose place carries a crop is the only one of
its cube, and what is left of the cube is behind this crop. Without a crop the cube is what it was.
The faces of a cube with several of them have places without a crop, and so have the fragments of
their references. -/
structure Compilation.Trims (r : Compilation α) (full cube : BoneCube α) : Prop where
  faces_eq : cube.faces = full.faces
  of_crop : ∀ {face : Face × FaceUse} {crop : Crop α}, face ∈ cube.faces →
    r.cropOf? face = some crop → cube.faces = [face] ∧ full.IsCropped cube face.1 crop
  of_no_crop : (∀ face ∈ cube.faces, r.cropOf? face = none) → cube = full
  whole : cube.faces.length ≠ 1 → ∀ face ∈ cube.faces, ∃ i p,
    r.fragmentOf[face.2.texture]? = some i ∧ r.atlas.placements[i]? = some p ∧
      r.placements[face.2.texture]? = some p ∧ p.crop = none

/-- A bone of a run is made of the cubes of its block, each of which is then trimmed. -/
def Compilation.TrimsBone (c : Catalog α) (settings : Settings α) (r : Compilation α) (b : Block)
    (bone : Bone α) : Prop :=
  ∃ full : Bone α, full.IsOf c settings r.references b ∧
    bone = { full with cubes := bone.cubes } ∧ List.Forall₂ r.Trims full.cubes bone.cubes

/-! ## From faces to fragments -/

/-- Only the reference of a face that is alone is croppable. -/
theorem Cube.length_ownReferences_of_croppable {c : Catalog α} {host : Block} {cube : Cube α}
    {own : Face × TextureReference α} (hown : own ∈ cube.ownReferences c host)
    (h : own.2.croppable = true) : (cube.ownReferences c host).length = 1 := by
  unfold ownReferences faceReferences at hown ⊢
  simp only [Noted.value_bind, Noted.value_pure, List.length_map] at hown ⊢
  obtain ⟨rect, -, rfl⟩ := List.mem_map.1 hown
  simp only [Bool.and_eq_true, beq_iff_eq] at h
  exact h.2

/-- The fragment of a reference is croppable if the reference is. -/
theorem Catalog.croppable_resolveTexture (c : Catalog α) (ref : TextureReference α) :
    (c.resolveTexture ref).value.croppable = ref.croppable := by
  unfold resolveTexture
  split <;> rfl

/-- Only a croppable fragment is trimmed. -/
theorem TextureFragment.croppable_of_crop {t : TextureFragment α} {loaded : Option LoadedImage}
    {crop : Crop α} (h : (t.apply loaded).crop = some crop) : t.croppable = true := by
  cases loaded with
  | none => cases h
  | some loaded =>
    by_contra hnot
    simp [apply, hnot] at h

variable {c : Catalog α} {settings : Settings α} {find : FileLookup} {palette : List Block}
  {r : Compilation α}

/-- The place of a reference has the crop of the reference's fragment. -/
theorem Compilation.IsStaged.crop_eq (h : r.IsStaged c settings find palette) {k : Nat}
    {ref : TextureReference α} {p : Placement α} (href : r.references[k]? = some ref)
    (hp : r.placements[k]? = some p) :
    ∃ t, t.key = (c.resolveTexture ref).value.key ∧ p.crop = (r.imageOf c find t).crop := by
  obtain ⟨i, t, hi, ht, hkey⟩ := h.exists_fragment href
  have himage : (r.imagesOf c find)[i]? = some (r.imageOf c find t) := by
    rw [Compilation.imagesOf_eq, List.getElem?_map, ht]
    rfl
  obtain ⟨place, hplace, -, hcrop⟩ := Atlas.exists_placement h.atlas himage
  rw [h.getElem?_placements hi hplace] at hp
  cases hp
  exact ⟨t, hkey, hcrop⟩

/-! ## Cubes -/

/-- A croppable reference belongs to a face that is alone on its cube. -/
theorem Bone.IsOf.eq_singleton {references : List (TextureReference α)} {b : Block} {full : Bone α}
    (h : full.IsOf c settings references b) {cube : BoneCube α} (hcube : cube ∈ full.cubes)
    {face : Face × FaceUse} (hface : face ∈ cube.faces) {ref : TextureReference α}
    (href : references[face.2.texture]? = some ref) (hcroppable : ref.croppable = true) :
    cube.faces = [face] := by
  obtain ⟨made, -, hmade⟩ := h
  cases made with
  | none =>
    rw [show full = .empty b.shortName settings.scale from hmade] at hcube
    cases hcube
  | some made =>
    have hbuilt : full.IsBuilt c _ _ _ references made.2 := hmade
    obtain ⟨source, -, hcube⟩ := exists_of_mem_right hbuilt.cubes hcube
    obtain ⟨own, hown, hface'⟩ := exists_of_mem_right hcube.faces hface
    obtain ⟨ref', href', hstands⟩ := hface'.exists_reference
    cases href.symm.trans href'
    rw [hstands.alike.croppable] at hcroppable
    have hlength := hcube.faces.length_eq
    rw [Cube.length_ownReferences_of_croppable hown hcroppable] at hlength
    obtain ⟨face', hfaces⟩ := List.length_eq_one_iff.1 hlength.symm
    rw [hfaces] at hface ⊢
    rw [List.mem_singleton.1 hface]

omit [Scalar α] in
theorem BoneCube.crop?_of_singleton {cube : BoneCube α} {face : Face × FaceUse}
    (h : cube.faces = [face]) :
    cube.crop? r.placements = (r.cropOf? face).map fun crop => (face.1, crop) := by
  unfold crop? Compilation.cropOf?
  rw [h]
  exact Option.map_bind.symm

omit [Scalar α] in
/-- A cube whose faces have places without a crop is not trimmed. -/
theorem BoneCube.crop?_eq_none {cube : BoneCube α}
    (h : ∀ face ∈ cube.faces, r.cropOf? face = none) : cube.crop? r.placements = none := by
  match hfaces : cube.faces with
  | [] => simp [crop?, hfaces]
  | [face] =>
    rw [crop?_of_singleton hfaces, h face (by rw [hfaces]; exact List.mem_cons_self),
      Option.map_none]
  | _ :: _ :: _ => simp [crop?, hfaces]

theorem BoneCube.trimmed_of_singleton {full : BoneCube α} {face : Face × FaceUse} {crop : Crop α}
    (h : full.faces = [face]) (hcrop : r.cropOf? face = some crop) :
    full.IsCropped (full.trimmed r.placements) face.1 crop := by
  have htrimmed : full.trimmed r.placements = full.crop face.1 crop := by
    unfold trimmed
    rw [crop?_of_singleton h, hcrop]
    rfl
  have hdrawn : full.face? face.1 = some face.2 := by
    rw [face?, h, List.lookup_cons_self]
  rw [htrimmed]
  exact isCropped_crop hdrawn crop

/-! ## Runs -/

variable [WrittenScalar α]

/-- Only the place of a croppable reference carries a crop. -/
theorem Compilation.IsStaged.croppable_of_crop (h : r.IsStaged c settings find palette) {k : Nat}
    {ref : TextureReference α} {p : Placement α} {crop : Crop α}
    (href : r.references[k]? = some ref) (hp : r.placements[k]? = some p)
    (hcrop : p.crop = some crop) : ref.croppable = true := by
  obtain ⟨t, hkey, hcrop'⟩ := h.crop_eq href hp
  have hstands := TextureFragment.standsFor_of_key hkey
  rw [← c.croppable_resolveTexture ref, ← hstands.alike.croppable]
  exact TextureFragment.croppable_of_crop (hcrop'.symm.trans hcrop)

section

variable (hstaged : r.IsStaged c settings find palette)

include hstaged

/-- A face whose place carries a crop is alone on its cube. -/
theorem Compilation.IsStaged.eq_singleton_of_cropOf? {b : Block} {full : Bone α}
    (hfull : full.IsOf c settings r.references b) {cube : BoneCube α} (hcube : cube ∈ full.cubes)
    {face : Face × FaceUse} (hface : face ∈ cube.faces) {crop : Crop α}
    (hcrop : r.cropOf? face = some crop) : cube.faces = [face] := by
  obtain ⟨p, hp, hcrop⟩ := Option.bind_eq_some_iff.1 hcrop
  have hk : face.2.texture < r.references.length := by
    rw [← hstaged.length_placements]
    exact (List.getElem?_eq_some_iff.1 hp).1
  have href := List.getElem?_eq_getElem hk
  exact hfull.eq_singleton hcube hface href (hstaged.croppable_of_crop href hp hcrop)

/-- A cube of a block of the palette is trimmed as its faces say. -/
theorem Compilation.IsStaged.trims {b : Block} {full : Bone α}
    (hfull : full.IsOf c settings r.references b) {cube : BoneCube α} (hcube : cube ∈ full.cubes) :
    r.Trims cube (cube.trimmed r.placements) where
  faces_eq := cube.faces_trimmed r.placements
  of_crop := by
    intro face crop hface hcrop
    rw [cube.faces_trimmed] at hface ⊢
    have hfaces := hstaged.eq_singleton_of_cropOf? hfull hcube hface hcrop
    exact ⟨hfaces, BoneCube.trimmed_of_singleton hfaces hcrop⟩
  of_no_crop := by
    intro hnone
    rw [cube.faces_trimmed] at hnone
    unfold BoneCube.trimmed
    rw [BoneCube.crop?_eq_none hnone]
  whole := by
    intro hlength face hface
    rw [cube.faces_trimmed] at hlength hface
    obtain ⟨made, -, hmade⟩ := id hfull
    have hk := hmade.lt_length cube hcube face hface
    obtain ⟨i, -, p, hi, -, -, hp, hplace⟩ :=
      hstaged.exists_place (List.getElem?_eq_getElem hk)
    refine ⟨i, p, hi, hp, hplace, Option.eq_none_iff_forall_ne_some.2 fun crop hcrop => hlength ?_⟩
    have hcropOf : r.cropOf? face = some crop := by
      rw [Compilation.cropOf?, hplace]
      exact hcrop
    rw [hstaged.eq_singleton_of_cropOf? hfull hcube hface hcropOf, List.length_singleton]

theorem Compilation.IsStaged.trimsBone :
    List.Forall₂ (r.TrimsBone c settings) palette r.bones := by
  refine hstaged.hasBone.imp fun b bone hbone => ?_
  obtain ⟨full, hfull, rfl⟩ := hbone
  refine ⟨full, hfull, rfl, ?_⟩
  refine List.forall₂_map_right_iff.2 (List.forall₂_same.2 fun cube hcube => ?_)
  exact hstaged.trims hfull hcube

end

end

/-! ## Exact arithmetic -/

/-- A trimmed fragment shows a part of its rectangle. -/
theorem Crop.isPart_of_apply {t : TextureFragment Rat} {loaded : Option LoadedImage}
    {crop : Crop Rat} (h : (t.apply loaded).crop = some crop) : crop.IsPart := by
  cases loaded with
  | none => cases h
  | some loaded =>
    obtain ⟨img, happly | ⟨rect, part, crop', hcrop, happly⟩⟩ := t.apply_some_cases loaded
    · rw [happly] at h
      cases h
    · rw [happly] at h
      cases h
      exact isPart_of_visibleCrop hcrop

section

variable {c : Catalog Rat} {settings : Settings Rat} {find : FileLookup} {palette : List Block}
  {r : Compilation Rat}

/-- The crops of a run name parts of textures. -/
theorem Compilation.IsStaged.isPart_of_cropOf? (h : r.IsStaged c settings find palette)
    {face : Face × FaceUse} {crop : Crop Rat} (hcrop : r.cropOf? face = some crop) :
    crop.IsPart := by
  obtain ⟨p, hp, hcrop⟩ := Option.bind_eq_some_iff.1 hcrop
  have hk : face.2.texture < r.references.length := by
    rw [← h.length_placements]
    exact (List.getElem?_eq_some_iff.1 hp).1
  obtain ⟨t, -, hcrop'⟩ := h.crop_eq (List.getElem?_eq_getElem hk) hp
  exact Crop.isPart_of_apply (hcrop'.symm.trans hcrop)

/-- A cube whose extents are not negative contains what is left of it. -/
theorem Compilation.Trims.isWithin (h : r.IsStaged c settings find palette)
    {full cube : BoneCube Rat} (htrims : r.Trims full cube) (hsized : full.IsSized) :
    cube.IsWithin full := by
  by_cases hnone : ∀ face ∈ cube.faces, r.cropOf? face = none
  · rw [htrims.of_no_crop hnone]
    exact .refl hsized
  · push Not at hnone
    obtain ⟨face, hface, hsome⟩ := hnone
    obtain ⟨crop, hcrop⟩ := Option.ne_none_iff_exists'.1 hsome
    rw [(htrims.of_crop hface hcrop).2.eq]
    exact BoneCube.isWithin_crop hsized face.1 (h.isPart_of_cropOf? hcrop)

end

/-- Every run trims the cubes of its palette so, and in exact arithmetic each stays within the cube
that it was, if that has no negative extent. -/
theorem trims_of_compile :
    (∀ {α : Type} [Scalar α] [WrittenScalar α] {c : Catalog α} {settings : Settings α}
      {find : FileLookup} {palette : List Block} {r : Compilation α},
      (compile c settings find palette).run.value = .ok r →
        List.Forall₂ (r.TrimsBone c settings) palette r.bones) ∧
    ∀ {c : Catalog Rat} {settings : Settings Rat} {find : FileLookup} {palette : List Block}
      {r : Compilation Rat}, (compile c settings find palette).run.value = .ok r →
        ∀ {full cube : BoneCube Rat}, r.Trims full cube → full.IsSized → cube.IsWithin full := by
  refine ⟨fun h => (compile_eq_ok_iff.1 h).trimsBone, fun h full cube htrims hsized => ?_⟩
  exact htrims.isWithin (compile_eq_ok_iff.1 h) hsized

/-- A sheet whose texture is transparent on the right: what is left of it is half as wide. -/
theorem trims_of_compile_of_half :
    let image : Image := (Image.fill 2 1 .transparent).put 0 ⟨255, 0, 0, 255⟩
    let sheet : Template Rat := {
      size := some ⟨16, 16, 0⟩, texturePath := some "sheet.png", croppable := some true }
    let c : Catalog Rat := { geometry := Table.empty.insert defaultShape [sheet] }
    let b : Block := { name := "sheet" }
    let find : FileLookup := fun _ => some (.picture .png image)
    ∃ r, (compile c .standard find [b]).run.value = .ok r ∧
      List.Forall₂ (r.TrimsBone c .standard) [b] r.bones ∧
      ∃ full cube, r.Trims full cube ∧ full.size = ⟨16, 16, 0⟩ ∧ cube.size = ⟨8, 16, 0⟩ ∧
        cube.IsWithin full := by
  intro image sheet c b find
  have hcheck : ((compile c .standard find [b]).run.value.toOption.any fun r =>
      r.bones.any fun bone => bone.cubes.any fun cube => cube.faces.any fun face =>
        decide (cube.size = ⟨8, 16, 0⟩ ∧ face.1 = .north ∧
          r.cropOf? face = some ⟨0, 0, 1 / 2, 1⟩)) = true := by
    decide +kernel
  obtain ⟨r, hr, hcheck⟩ := (Option.any_eq_true _ _).1 hcheck
  obtain ⟨bone, hbone, hcheck⟩ := List.any_eq_true.1 hcheck
  obtain ⟨cube, hcube, hcheck⟩ := List.any_eq_true.1 hcheck
  obtain ⟨face, hface, hcheck⟩ := List.any_eq_true.1 hcheck
  obtain ⟨hsize, hnorth, hcrop⟩ := of_decide_eq_true hcheck
  have hok := toOption_eq_some_iff.1 hr
  have hbones := trims_of_compile.1 hok
  obtain ⟨_, -, _, -, -, hcubes⟩ := exists_of_mem_right hbones hbone
  obtain ⟨full, -, htrims⟩ := exists_of_mem_right hcubes hcube
  -- The extent of the full cube is known from that of the trimmed one.
  obtain ⟨-, -, hwidth, hheight, -, haligned⟩ := (htrims.of_crop hface hcrop).2
  simp only [hnorth, hsize, Face.textureAxes, Face.axis, Vec3.get] at hwidth hheight haligned
  have hfull : full.size = ⟨16, 16, 0⟩ :=
    congr (congr (congrArg Vec3.mk (by linarith)) (by linarith)) haligned.symm
  have hsized : full.IsSized := by
    intro axis
    rw [hfull]
    cases axis <;> decide
  exact ⟨r, hok, hbones, full, cube, htrims, hfull, hsize, trims_of_compile.2 hok htrims hsized⟩

end BlockModels
