import BlockModels.Proofs.Compilation.Joining
import BlockModels.Proofs.Texture.Resolution

/-!
# What is shown of a block

The view of a bone is the bone without positions in tables: for each face the view has the reference
and the fragment to which the tables lead, and the size and crop of its place (`Compilation.view`).
Where the atlas has that place is left out. If the rectangles of a run are finite then the view of
every bone is the one that its block has by itself (`Compilation.view_eq`): no other block of the
palette has a part in it, neither through shapes that were asked for, nor through references and
fragments that were there already, nor through a crop.
-/

namespace BlockModels

/-! ## Views -/

/-- What is shown on a face. -/
structure FaceView (α : Type) where
  face : Face
  flipU : Bool
  flipV : Bool
  reference : TextureReference α
  fragment : TextureFragment α
  /-- The size of the fragment's place on the atlas. -/
  size : Vec2 α
  crop : Option (Crop α)

/-- A cube with what is shown on its faces. -/
structure CubeView (α : Type) where
  /-- The cube, its faces left out. -/
  cube : BoneCube α
  /-- None for a face that the tables do not lead to anything. -/
  faces : List (Option (FaceView α))

/-- A bone with what is shown on its cubes. -/
structure BoneView (α : Type) where
  /-- The bone, its cubes left out. -/
  bone : Bone α
  cubes : List (CubeView α)

section

variable {α : Type} [Scalar α]

/-- The cube without its faces. -/
def BoneCube.bare (cube : BoneCube α) : BoneCube α := { cube with faces := [] }

namespace Compilation

variable (r : Compilation α)

/-- What the tables of a run lead a face to. -/
def faceView? (face : Face × FaceUse) : Option (FaceView α) := do
  let reference ← r.references[face.2.texture]?
  let i ← r.fragmentOf[face.2.texture]?
  let fragment ← r.fragments[i]?
  let place ← r.placements[face.2.texture]?
  return ⟨face.1, face.2.flipU, face.2.flipV, reference, fragment, place.rect.size, place.crop⟩

/-- What is shown of a bone. -/
def view (bone : Bone α) : BoneView α where
  bone := { bone with cubes := [] }
  cubes := bone.cubes.map fun cube => ⟨cube.bare, cube.faces.map r.faceView?⟩

end Compilation

/-! ## Views of blocks -/

section

variable (c : Catalog α) (settings : Settings α) (find : FileLookup)

/-- What a fragment shows, with its image loaded. -/
def Catalog.imageFragment (t : TextureFragment α) : ImageFragment α :=
  t.apply (c.loadImage find t.path).value

/-- What is shown on a face of a cube, by its own reference. -/
def Cube.faceView (cube : Cube α) (own : Face × TextureReference α) : FaceView α :=
  let use := cube.faceUse own.1 0
  let fragment := (c.resolveTexture own.2).value
  let image := c.imageFragment find fragment
  ⟨own.1, use.flipU, use.flipV, own.2, fragment, image.placedSize settings.outline, image.crop⟩

/-- What is shown of a cube. If it has a single face, that takes it along when it is trimmed. -/
def Cube.view (host : Block) (cube : Cube α) : CubeView α :=
  let views := (cube.ownReferences c host).map (cube.faceView c settings find)
  let whole := cube.placed settings.scale (views.map fun v => (v.face, cube.faceUse v.face 0))
  let trimmed := match views with
    | [v] => v.crop.elim whole (whole.crop v.face)
    | _ => whole
  ⟨trimmed.bare, views.map some⟩

/-- What is shown of a block with a shape and the cubes of this shape, or that is ignored. -/
def blockView (b : Block) : Option (String × List (Cube α)) → BoneView α
  | none => ⟨.empty b.shortName settings.scale, []⟩
  | some (shape, cubes) => {
      bone := {
        blockName := (c.admitted b).shortName
        rotation := c.rotations.resolve (c.admitted b) (splitSpecial shape).1
        pivot := Rotation.defaultPivot.scale settings.scale
        scale := settings.scale }
      cubes := cubes.map (Cube.view c settings find (c.admitted b)) }

end

/-! ## Cropping -/

/-- What is cropped of a cube depends on how the face lies, and on nothing else of the faces. -/
theorem BoneCube.bare_crop_congr {a b : BoneCube α} (h : a.bare = b.bare) {f : Face}
    {use use' : FaceUse} (ha : a.face? f = some use) (hb : b.face? f = some use')
    (hu : use.flipU = use'.flipU) (hv : use.flipV = use'.flipV) (part : Crop α) :
    (a.crop f part).bare = (b.crop f part).bare := by
  obtain ⟨origin, size, rotation, extraRotations, faces⟩ := a
  obtain ⟨origin', size', rotation', extraRotations', faces'⟩ := b
  simp only [bare, BoneCube.mk.injEq] at h
  obtain ⟨rfl, rfl, rfl, rfl, -⟩ := h
  simp only [crop, ha, hb, hu, hv, cropAlong, bare]

/-! ## Views of runs -/

variable [WrittenScalar α] {c : Catalog α} {settings : Settings α} {find : FileLookup}
  {palette : List Block} {r : Compilation α}

namespace Compilation

/-- The tables lead a face to what its own reference stands for. -/
theorem faceView?_eq (h : (compile c settings find palette).run.value = .ok r)
    (hc : c.HasFiniteOpacities) {cube : Cube α} {own : Face × TextureReference α}
    {face : Face × FaceUse} (hface : FaceUse.IsBuilt r.references cube own face)
    (hown : own.2.isFinite = true) :
    r.faceView? face = some (cube.faceView c settings find own) := by
  have hstaged := compile_eq_ok_iff.1 h
  obtain ⟨ref, href, hstands⟩ := hface.exists_reference
  obtain ⟨i, t, p, hi, ht, hfragment, hplace, hp⟩ := hstaged.exists_place href
  obtain rfl := hstands.eq_of_isFinite hown
  obtain rfl := hfragment.eq_of_isFinite (isFinite_resolveTexture hc hown)
  have himage : r.imageOf c find (c.resolveTexture own.2).value =
      c.imageFragment find (c.resolveTexture own.2).value := by
    rw [imageOf, loaded?, get?_loadImages c find (List.mem_map_of_mem (List.mem_of_getElem? ht))]
    rfl
  have hslot : (r.imagesOf c find)[i]? =
      some (r.imageOf c find (c.resolveTexture own.2).value) := by
    rw [imagesOf_eq, List.getElem?_map, ht]
    rfl
  obtain ⟨p', hp', hsize, hcrop⟩ := Atlas.exists_placement hstaged.atlas hslot
  rw [hplace, Option.some.injEq] at hp'
  subst hp'
  have hflipU := congrArg FaceUse.flipU hface.use_eq
  have hflipV := congrArg FaceUse.flipV hface.use_eq
  simp only [faceView?, href, hi, ht, hp, Option.bind_eq_bind, Option.bind_some, Option.pure_def,
    Cube.faceView, ← himage, hsize, hcrop, hface.face_eq]
  rw [hflipU, hflipV]
  rfl

omit [Scalar α] [WrittenScalar α] in
theorem exists_place_of_faceView? {face : Face × FaceUse} {v : FaceView α}
    (h : r.faceView? face = some v) :
    ∃ p, r.placements[face.2.texture]? = some p ∧ p.crop = v.crop := by
  simp only [faceView?, Option.bind_eq_bind, Option.bind_eq_some_iff, Option.pure_def,
    Option.some.injEq] at h
  obtain ⟨-, -, -, -, -, -, p, hp, rfl⟩ := h
  exact ⟨p, hp, rfl⟩

omit [WrittenScalar α] in
/-- But for its faces, a cube is made of the cube of its block alone. -/
theorem bare_eq_of_isBuilt {host : Block} {scale : α} {references : List (TextureReference α)}
    {cube : Cube α} {built : BoneCube α} (h : built.IsBuilt c host scale references cube)
    (faces : List (Face × FaceUse)) : built.bare = (cube.placed scale faces).bare := by
  rw [h.placed]
  rfl

omit [WrittenScalar α] in
/-- A face that is alone takes the cube along, by the crop that is shown on it. -/
theorem bare_trimmed_of_single {host : Block} {cube : Cube α} {built : BoneCube α}
    (hbuilt : built.IsBuilt c host settings.scale r.references cube)
    {own : Face × TextureReference α} {face : Face × FaceUse} (hfaces : built.faces = [face])
    (hface : FaceUse.IsBuilt r.references cube own face)
    (hview : r.faceView? face = some (cube.faceView c settings find own)) :
    let whole := cube.placed settings.scale [(own.1, cube.faceUse own.1 0)]
    (built.trimmed r.placements).bare =
      ((cube.faceView c settings find own).crop.elim whole (whole.crop own.1)).bare := by
  intro whole
  have hbare : built.bare = whole.bare := bare_eq_of_isBuilt hbuilt _
  obtain ⟨p, hp, hcrop⟩ := exists_place_of_faceView? hview
  rw [BoneCube.trimmed, BoneCube.crop?, hfaces]
  simp only [hp, Option.bind_some, hcrop]
  cases (cube.faceView c settings find own).crop with
  | none => exact hbare
  | some part =>
    have huse : built.face? own.1 = some face.2 := by
      rw [BoneCube.face?, hfaces, ← hface.face_eq]
      exact List.lookup_cons_self
    have huse' : whole.face? own.1 = some (cube.faceUse own.1 0) := List.lookup_cons_self
    have hflipU := congrArg FaceUse.flipU hface.use_eq
    have hflipV := congrArg FaceUse.flipV hface.use_eq
    change (built.crop face.1 part).bare = (whole.crop own.1 part).bare
    rw [hface.face_eq]
    exact BoneCube.bare_crop_congr hbare huse huse' hflipU hflipV part

/-- The view of a cube is the one that it has by itself. -/
theorem cubeView_eq (h : (compile c settings find palette).run.value = .ok r)
    (hc : c.HasFiniteOpacities) {host : Block} {cube : Cube α} {built : BoneCube α}
    (hbuilt : built.IsBuilt c host settings.scale r.references cube)
    (hown : ∀ own ∈ cube.ownReferences c host, own.2.isFinite = true) :
    (⟨(built.trimmed r.placements).bare,
      (built.trimmed r.placements).faces.map r.faceView?⟩ : CubeView α) =
        cube.view c settings find host := by
  have hfaces : built.faces.map r.faceView? =
      ((cube.ownReferences c host).map (cube.faceView c settings find)).map some := by
    rw [List.map_map]
    exact map_eq_of_forall₂ hbuilt.faces fun own hmem face hface =>
      faceView?_eq h hc hface (hown own hmem)
  rw [BoneCube.faces_trimmed, Cube.view, CubeView.mk.injEq]
  refine ⟨?_, hfaces⟩
  have hforall := hbuilt.faces
  generalize cube.ownReferences c host = owns at hforall hfaces ⊢
  generalize hbuiltFaces : built.faces = faces at hforall hfaces
  rcases hforall with _ | @⟨own, face, _, _, hface, _ | _⟩
  case cons.nil =>
    exact bare_trimmed_of_single hbuilt hbuiltFaces hface (List.cons.inj hfaces).1
  all_goals
    rw [BoneCube.trimmed, BoneCube.crop?, hbuiltFaces]
    exact bare_eq_of_isBuilt hbuilt _

/-- The view of a bone is the one that its block has by itself. -/
theorem view_eq (h : (compile c settings find palette).run.value = .ok r)
    (hc : c.HasFiniteOpacities) {b : Block} {full : Bone α}
    {made : Option (String × List (Cube α))} (hmade : full.IsMade c settings r.references b made)
    (hown : ∀ ref ∈ blockReferences c b made, ref.isFinite = true) :
    r.view (full.trimmed r.placements) = blockView c settings find b made := by
  cases made with
  | none =>
    rw [show full = .empty b.shortName settings.scale from hmade]
    rfl
  | some made =>
    have hbuilt : full.IsBuilt c (c.admitted b) made.1 settings.scale r.references made.2 := hmade
    have hcubes : (full.trimmed r.placements).cubes.map
        (fun cube => (⟨cube.bare, cube.faces.map r.faceView?⟩ : CubeView α)) =
          made.2.map (Cube.view c settings find (c.admitted b)) := by
      rw [Bone.trimmed, List.map_map]
      refine map_eq_of_forall₂ hbuilt.cubes fun cube hcube built hforall => ?_
      refine cubeView_eq h hc hforall fun own hmem => hown own.2 ?_
      exact List.mem_flatMap.2 ⟨cube, hcube, List.mem_map_of_mem hmem⟩
    rw [view, hcubes, Bone.trimmed, hbuilt.eq]
    rfl

end Compilation

/-- The references of a block are finite if those that stand for them are. -/
theorem isFinite_blockReferences {references : List (TextureReference α)} {b : Block}
    {made : Option (String × List (Cube α))} {bone : Bone α}
    (h : bone.IsMade c settings references b made)
    (hfinite : ∀ ref ∈ references, ref.rect.isFinite = true) :
    ∀ ref ∈ blockReferences c b made, ref.isFinite = true := by
  cases made with
  | none => exact fun ref href => absurd href List.not_mem_nil
  | some made =>
    have hbuilt : bone.IsBuilt c (c.admitted b) made.1 settings.scale references made.2 := h
    intro own hown
    obtain ⟨cube, hcube, hown⟩ := List.mem_flatMap.1 hown
    obtain ⟨own, hmem, rfl⟩ := List.mem_map.1 hown
    obtain ⟨built, -, hforall⟩ := exists_of_mem_right hbuilt.cubes.flip hcube
    obtain ⟨face, -, hface⟩ := exists_of_mem_right (BoneCube.IsBuilt.faces hforall).flip hmem
    obtain ⟨ref, href, hstands⟩ := FaceUse.IsBuilt.exists_reference hface
    have hrect := hfinite ref (List.mem_of_getElem? href)
    rw [hstands.alike.rect.eq_of_isFinite hrect] at hrect
    obtain ⟨rect, -, rfl⟩ := List.mem_map.1 hmem
    exact Bool.and_eq_true_iff.2 ⟨hrect, isFinite_tint cube⟩

end

end BlockModels
