import BlockModels.Proofs.Atlas.Order
import BlockModels.Proofs.Catalog.Reading
import BlockModels.Proofs.Compilation.Blocks
import BlockModels.Proofs.Compilation.Placing
import BlockModels.Proofs.Scalar.Decimals

/-!
# How the tables of a run are joined

A face names a reference, the reference has a fragment, and the fragment has a place on the atlas.
References and fragments are listed while faces and references are gone through, and the places are
known in the end only; all the same no position is out of range, and each leads to what was put
there (`Compilation.IsJoined`). What is listed once is told apart by how it is written. So a face
finds a reference that is written like its own: the same one if its numbers are finite, while
rectangles that are not finite may be taken for each other.
-/

namespace BlockModels

section

variable {α : Type} [Scalar α] (c : Catalog α) (settings : Settings α)

/-- A bone is made of the cubes that its block has by itself. -/
def Bone.IsOf (references : List (TextureReference α)) (b : Block) (bone : Bone α) : Prop :=
  ∃ made, (blockCubes c settings b).runFresh.value = .ok made ∧
    bone.IsMade c settings references b made

/-- A bone of a run is made of the cubes of its block, and trimmed. -/
def Compilation.HasBone (r : Compilation α) (b : Block) (bone : Bone α) : Prop :=
  ∃ full : Bone α, full.IsOf c settings r.references b ∧ full.trimmed r.placements = bone

/-- The tables of a run fit together. The tables of references, fragments of references and places
have one length. Every block has its bone, and every face of a bone names a reference that stands
for the face's own. The fragment of a reference stands for what the reference is resolved to, and
the place of the reference is that of the fragment. References are told apart by how they are
written, as fragments are, and no fragment is without a reference. -/
structure Compilation.IsJoined (palette : List Block) (r : Compilation α) : Prop where
  length_fragmentOf : r.fragmentOf.length = r.references.length
  length_placements : r.placements.length = r.references.length
  bones : List.Forall₂ (r.HasBone c settings) palette r.bones
  faces : ∀ bone ∈ r.bones, ∀ cube ∈ bone.cubes, ∀ face ∈ cube.faces,
    face.2.texture < r.references.length ∧ (r.faceRect? face.2).isSome = true
  exists_fragment : ∀ {k : Nat} {ref : TextureReference α}, r.references[k]? = some ref →
    ∃ i t p, r.fragmentOf[k]? = some i ∧ r.fragments[i]? = some t ∧
      t.StandsFor (c.resolveTexture ref).value ∧ r.atlas.placements[i]? = some p ∧
        r.placements[k]? = some p
  fragment_eq_iff : ∀ {j k : Nat} {ref ref' : TextureReference α}, r.references[j]? = some ref →
    r.references[k]? = some ref' → (r.fragmentOf[j]? = r.fragmentOf[k]? ↔
      (c.resolveTexture ref).value.key = (c.resolveTexture ref').value.key)
  nodup_references : (r.references.map TextureReference.key).Nodup
  nodup_fragments : (r.fragments.map TextureFragment.key).Nodup
  used : ∀ i < r.fragments.length, i ∈ r.fragmentOf
  length_le : r.fragments.length ≤ r.references.length
  length_lt_iff : r.fragments.length < r.references.length ↔ ¬r.fragmentOf.Nodup

/-! ## Faces -/

theorem BoneCube.faces_trimmed (placements : List (Placement α)) (cube : BoneCube α) :
    (cube.trimmed placements).faces = cube.faces := by
  unfold BoneCube.trimmed
  split
  · unfold BoneCube.crop
    split <;> rfl
  · rfl

variable {c settings}

/-- The faces of a bone name references. -/
theorem Bone.IsMade.lt_length {references : List (TextureReference α)} {b : Block}
    {made : Option (String × List (Cube α))} {bone : Bone α}
    (h : bone.IsMade c settings references b made) :
    ∀ cube ∈ bone.cubes, ∀ face ∈ cube.faces, face.2.texture < references.length := by
  intro cube hcube face hface
  cases made with
  | none =>
    rw [show bone = .empty b.shortName settings.scale from h] at hcube
    cases hcube
  | some made =>
    have hbuilt : bone.IsBuilt c _ _ _ references made.2 := h
    obtain ⟨_, -, hcubes⟩ := exists_of_mem_right hbuilt.cubes hcube
    obtain ⟨_, -, hfaces⟩ := exists_of_mem_right hcubes.faces hface
    obtain ⟨ref, href, -⟩ := hfaces.exists_reference
    exact (List.getElem?_eq_some_iff.1 href).1

/-! ## Fragments -/

variable {find : FileLookup} {palette : List Block} {r : Compilation α}

theorem Compilation.IsStaged.registers (h : r.IsStaged c settings find palette) :
    Registers (r.references.map fun ref => (c.resolveTexture ref).value) r.fragmentOf
      r.fragments := by
  have hresolved := h.resolved
  rw [value_resolveTextures, Prod.mk.injEq] at hresolved
  rw [← hresolved.1, ← hresolved.2]
  exact Registers.insertAll _

variable [WrittenScalar α]

/-- The bones of a run before they are trimmed, and what is in the registry. -/
theorem exists_parts_of_compileBones {bones : List (Bone α)}
    {references : List (TextureReference α)}
    (h : (compileBones c settings palette).run.value = .ok (bones, references)) :
    ∃ p : Parts α, p.AreOf c settings palette ∧
      references = (Registry.empty.insertAll (p.references c palette)).2.toList ∧
        List.Forall₂ (fun b bone => Bone.IsOf c settings references b bone) palette bones := by
  obtain ⟨p, hp⟩ := exists_parts h
  obtain ⟨bones', notes, hrun, -, hmade⟩ := run_compileBones hp
  rw [hrun] at h
  obtain ⟨rfl, rfl⟩ := Prod.mk.inj (Except.ok.inj h)
  refine ⟨p, hp, rfl, ?_⟩
  refine ((List.forall₂_and_left _ _).2 ⟨hp, hmade⟩).imp fun b bone hb => ?_
  exact ⟨_, hb.1.value_runFresh, hb.2⟩

section

variable (hstaged : r.IsStaged c settings find palette)

include hstaged

omit [WrittenScalar α] in
theorem Compilation.IsStaged.length_placements :
    r.placements.length = r.references.length := by
  rw [hstaged.placements, placementsOf, List.length_map, hstaged.length_fragmentOf]

omit [WrittenScalar α] in
/-- Two references have one fragment if what they are resolved to is written alike. -/
theorem Compilation.IsStaged.fragment_eq_iff {j k : Nat} {ref ref' : TextureReference α}
    (hj : r.references[j]? = some ref) (hk : r.references[k]? = some ref') :
    r.fragmentOf[j]? = r.fragmentOf[k]? ↔
      (c.resolveTexture ref).value.key = (c.resolveTexture ref').value.key := by
  have hresolved : ∀ {k ref}, r.references[k]? = some ref →
      (r.references.map fun ref => (c.resolveTexture ref).value)[k]? =
        some (c.resolveTexture ref).value := fun hk => by
    rw [List.getElem?_map, hk, Option.map_some]
  exact hstaged.registers.position_eq_iff (hresolved hj) (hresolved hk)

/-- A reference has a fragment, and the fragment a place, which is that of the reference. -/
theorem Compilation.IsStaged.exists_place {k : Nat} {ref : TextureReference α}
    (href : r.references[k]? = some ref) :
    ∃ i t p, r.fragmentOf[k]? = some i ∧ r.fragments[i]? = some t ∧
      t.StandsFor (c.resolveTexture ref).value ∧ r.atlas.placements[i]? = some p ∧
        r.placements[k]? = some p := by
  obtain ⟨i, t, hi, ht, hkey⟩ := hstaged.exists_fragment href
  have himage : (r.imagesOf c find)[i]? = some (r.imageOf c find t) := by
    rw [Compilation.imagesOf_eq, List.getElem?_map, ht]
    rfl
  obtain ⟨place, hplace, -⟩ := Atlas.exists_placement hstaged.atlas himage
  exact ⟨i, t, place, hi, ht, TextureFragment.standsFor_of_key hkey, hplace,
    hstaged.getElem?_placements hi hplace⟩

/-- The bones of a run are made of the cubes of their blocks and trimmed. -/
theorem Compilation.IsStaged.hasBone : List.Forall₂ (r.HasBone c settings) palette r.bones := by
  obtain ⟨full, hfull, htrimmed⟩ := hstaged.bones
  obtain ⟨p, -, -, hbones⟩ := exists_parts_of_compileBones hfull
  rw [htrimmed, List.forall₂_map_right_iff]
  exact hbones.imp fun b bone hbone => ⟨bone, hbone, rfl⟩

theorem Compilation.IsStaged.nodup_references :
    (r.references.map TextureReference.key).Nodup := by
  obtain ⟨full, hfull, -⟩ := hstaged.bones
  obtain ⟨p, -, hreferences, -⟩ := exists_parts_of_compileBones hfull
  rw [hreferences]
  exact (Registers.insertAll _).nodup

/-- No face names a reference that is not there. -/
theorem Compilation.IsStaged.texture_lt {bone : Bone α} (hbone : bone ∈ r.bones)
    {cube : BoneCube α} (hcube : cube ∈ bone.cubes) {face : Face × FaceUse}
    (hface : face ∈ cube.faces) : face.2.texture < r.references.length := by
  obtain ⟨b, -, full, ⟨made, -, hmade⟩, rfl⟩ := exists_of_mem_right hstaged.hasBone hbone
  obtain ⟨cube', hcube', rfl⟩ := List.mem_map.1 hcube
  rw [BoneCube.faces_trimmed] at hface
  exact hmade.lt_length cube' hcube' face hface

/-- What agrees with the stages of a run has tables that fit together. -/
theorem Compilation.IsStaged.isJoined : r.IsJoined c settings palette where
  length_fragmentOf := hstaged.length_fragmentOf
  length_placements := hstaged.length_placements
  bones := hstaged.hasBone
  faces := by
    intro bone hbone cube hcube face hface
    have hlt := hstaged.texture_lt hbone hcube hface
    rw [Compilation.faceRect?, List.getElem?_eq_getElem (hstaged.length_placements ▸ hlt)]
    exact ⟨hlt, rfl⟩
  exists_fragment := hstaged.exists_place
  fragment_eq_iff := hstaged.fragment_eq_iff
  nodup_references := hstaged.nodup_references
  nodup_fragments := hstaged.registers.nodup
  used := by
    intro i hi
    obtain ⟨k, -, hk⟩ := hstaged.registers.used (List.getElem?_eq_getElem hi)
    exact List.mem_of_getElem? hk
  length_le := by
    have hle := hstaged.registers.length_le
    rwa [List.length_map] at hle
  length_lt_iff := by
    have hlt := hstaged.registers.length_lt_iff
    rwa [List.length_map, ← hstaged.registers.nodup_positions_iff] at hlt

end

/-- The tables of every run fit together. -/
theorem isJoined_of_compile (h : (compile c settings find palette).run.value = .ok r) :
    r.IsJoined c settings palette := (compile_eq_ok_iff.1 h).isJoined

end

/-- Two sheets with rectangles that begin infinitely far to the right and to the left: both faces
name the reference of the first. -/
theorem isJoined_of_compile_of_infinite :
    let sheet (u : Float) : Template Float := {
      size := some ⟨16, 16, 0⟩, texturePath := some "sheet.png"
      uv := some (Table.empty.insert "*" ⟨u, 0⟩), textureSize := some ⟨0.5, 16⟩ }
    let c : Catalog Float :=
      { geometry := Table.empty.insert defaultShape [sheet 1e308, sheet (-1e308)] }
    let b : Block := { name := "sheet" }
    let find : FileLookup := fun _ => some (.picture .png (.fill 1 1 ⟨255, 0, 0, 255⟩))
    ∃ r made, (compile c .standard find [b]).run.value = .ok r ∧ r.IsJoined c .standard [b] ∧
      (blockCubes c .standard b).runFresh.value = .ok made ∧
      (blockReferences c b made).map (·.rect.uv.x) = [1 / 0, -1 / 0] ∧
      r.references.map (·.rect.uv.x) = [1 / 0] ∧
      (r.bones.flatMap fun bone => bone.cubes.flatMap fun cube =>
        cube.faces.map fun face => face.2.texture) = [0, 0] := by
  intro sheet c b find
  have hown : ((blockCubes c .standard b).runFresh.value.toOption.any fun made =>
    decide ((blockReferences c b made).map (·.rect.uv.x) = [1 / 0, -1 / 0])) = true := by
    decide +kernel
  have hshared : ((compile c .standard find [b]).run.value.toOption.any fun r =>
      decide (r.references.map (·.rect.uv.x) = [1 / 0] ∧
        (r.bones.flatMap fun bone => bone.cubes.flatMap fun cube =>
          cube.faces.map fun face => face.2.texture) = [0, 0])) = true := by
    decide +kernel
  obtain ⟨made, hmade, hreferences⟩ := (Option.any_eq_true _ _).1 hown
  obtain ⟨r, hr, hfaces⟩ := (Option.any_eq_true _ _).1 hshared
  have hok := toOption_eq_some_iff.1 hr
  exact ⟨r, made, hok, isJoined_of_compile hok, toOption_eq_some_iff.1 hmade,
    of_decide_eq_true hreferences, of_decide_eq_true hfaces⟩

end BlockModels
