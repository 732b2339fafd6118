import BlockModels.Mesh.Texturing
import BlockModels.Proofs.Lists
import BlockModels.Proofs.Texture.Keys
import BlockModels.Proofs.Texture.Registration

/-!
# The references of bones

A cube puts the references of its faces into the registry that it is given, and its faces in the
bone name their positions (`BoneCube.IsBuilt`). So the bone of some cubes adds the references of all
of them to the registry in order (`Cube.allReferences`), whatever is in it before, and takes notes
that do not depend on what is in it (`run_buildBone`).
-/

namespace BlockModels

section

variable {α : Type} [Scalar α] (c : Catalog α) (host : Block)

/-- The faces of a cube of a block that are drawn, each with its own reference. -/
def Cube.ownReferences (cube : Cube α) : List (Face × TextureReference α) :=
  (cube.faceReferences c (cube.block.getD host)).value

/-- The references of all cubes of a block, in the order in which they are put into a registry. -/
def Cube.allReferences (cubes : List (Cube α)) : List (TextureReference α) :=
  cubes.flatMap fun cube => (cube.ownReferences c host).map (·.2)

/-- The notes on the faces of all cubes of a block. -/
def Cube.faceNotes (cubes : List (Cube α)) : List Diagnostic :=
  cubes.flatMap fun cube => (cube.faceReferences c (cube.block.getD host)).notes

/-- A face in a bone that is made of a face of a cube: it names a reference that stands for the
face's own, and is turned over as the cube says. -/
structure FaceUse.IsBuilt (references : List (TextureReference α)) (cube : Cube α)
    (own : Face × TextureReference α) (face : Face × FaceUse) : Prop where
  face_eq : face.1 = own.1
  use_eq : face.2 = cube.faceUse own.1 face.2.texture
  exists_reference : ∃ ref, references[face.2.texture]? = some ref ∧ ref.StandsFor own.2

/-- A cube in the bone of a block, made of a cube. -/
structure BoneCube.IsBuilt (scale : α) (references : List (TextureReference α)) (cube : Cube α)
    (built : BoneCube α) : Prop where
  placed : built = cube.placed scale built.faces
  faces : List.Forall₂ (FaceUse.IsBuilt references cube) (cube.ownReferences c host) built.faces

/-- The bone of a block, made of cubes. -/
structure Bone.IsBuilt (shape : String) (scale : α) (references : List (TextureReference α))
    (cubes : List (Cube α)) (bone : Bone α) : Prop where
  eq : bone = {
    blockName := host.shortName
    cubes := bone.cubes
    rotation := c.rotations.resolve host (splitSpecial shape).1
    pivot := Rotation.defaultPivot.scale scale
    scale }
  cubes : List.Forall₂ (BoneCube.IsBuilt c host scale references) cubes bone.cubes

variable {c host} {scale : α} {references references' : List (TextureReference α)}
  {registry registry' : Registry (TextureReference α)}

/-! ## Later insertions -/

/-- What comes behind the references makes no difference. -/
theorem BoneCube.IsBuilt.mono
    (h : ∀ (i : Nat) ref, references[i]? = some ref → references'[i]? = some ref)
    {cube : Cube α} {built : BoneCube α} (hbuilt : built.IsBuilt c host scale references cube) :
    built.IsBuilt c host scale references' cube where
  placed := hbuilt.placed
  faces := hbuilt.faces.imp fun _ _ hface => by
    obtain ⟨ref, href, hown⟩ := hface.exists_reference
    exact ⟨hface.face_eq, hface.use_eq, ref, h _ ref href, hown⟩

theorem Bone.IsBuilt.mono
    (h : ∀ (i : Nat) ref, references[i]? = some ref → references'[i]? = some ref) {shape : String}
    {cubes : List (Cube α)} {bone : Bone α}
    (hbuilt : bone.IsBuilt c host shape scale references cubes) :
    bone.IsBuilt c host shape scale references' cubes where
  eq := hbuilt.eq
  cubes := hbuilt.cubes.imp fun _ _ hcube => hcube.mono h

/-! ## Cubes -/

omit [Scalar α] in
/-- The registry goes from the first part to the next. -/
theorem Referencing.run_bind {β γ : Type} {x : Referencing α β} {f : β → Referencing α γ} {v : β}
    {notes : List Diagnostic} (h : x.run registry = ⟨(v, registry'), notes⟩) :
    (x >>= f).run registry =
      ⟨((f v).run registry').value, notes ++ ((f v).run registry').notes⟩ := by
  rw [StateT.run_bind, h]
  rfl

variable (c host scale)

/-- What a cube does to the registry, and what it notes. -/
theorem run_toBoneCube (registry : Registry (TextureReference α)) (cube : Cube α) :
    (cube.toBoneCube c host scale).run registry = ⟨
      (((cube.toBoneCube c host scale).run registry).value.1,
        (registry.insertAll ((cube.ownReferences c host).map (·.2))).2),
      (cube.faceReferences c (cube.block.getD host)).notes⟩ := by
  refine Noted.ext rfl ?_
  change (_ ++ []) ++ ([] ++ []) = _
  rw [List.append_nil, List.append_nil, List.append_nil]
  rfl

variable [WrittenScalar α]

theorem isBuilt_toBoneCube (h : registry.Points) (cube : Cube α) :
    ((cube.toBoneCube c host scale).run registry).value.1.IsBuilt c host scale
      ((cube.toBoneCube c host scale).run registry).value.2.toList cube := by
  refine ⟨rfl, forall₂_map_zip Prod.fst (fun p => (p.1, cube.faceUse p.1 p.2)) ?_ ?_⟩
  · exact (Registry.length_insertAll _).trans (List.length_map _)
  · intro k own i hown hi
    have hk : ((cube.ownReferences c host).map (·.2))[k]? = some own.2 := by
      rw [List.getElem?_map]
      exact congrArg (Option.map _) hown
    obtain ⟨j, ref, hj, href, hkey⟩ := Registry.exists_insertAll h hk
    have hij : i = j := Option.some.inj (hi.symm.trans hj)
    subst hij
    exact ⟨rfl, rfl, ref, (Registry.getElem?_toList _ _).trans href,
      TextureReference.standsFor_of_key hkey⟩

/-! ## Bones -/

omit [Scalar α] in
theorem getElem?_toList_of_extends (h : registry.Extends registry') (i : Nat)
    (ref : TextureReference α) (href : registry.toList[i]? = some ref) :
    registry'.toList[i]? = some ref := by
  rw [Registry.getElem?_toList] at href ⊢
  exact h i ref href

/-- The references of all cubes are put into the registry one after the other. -/
theorem run_mapM_toBoneCube (cubes : List (Cube α)) (h : registry.Points) :
    ∃ built, (cubes.mapM fun cube : Cube α => cube.toBoneCube c host scale).run registry =
        ⟨(built, (registry.insertAll (Cube.allReferences c host cubes)).2),
          Cube.faceNotes c host cubes⟩ ∧
      List.Forall₂ (BoneCube.IsBuilt c host scale
        (registry.insertAll (Cube.allReferences c host cubes)).2.toList) cubes built := by
  induction cubes generalizing registry with
  | nil => exact ⟨[], rfl, .nil⟩
  | cons cube rest ih =>
    have hrun := run_toBoneCube c host scale registry cube
    have hbuilt := isBuilt_toBoneCube c host scale h cube
    rw [hrun] at hbuilt
    obtain ⟨built, hruns, hrest⟩ :=
      ih (Registry.points_insertAll h ((cube.ownReferences c host).map (·.2)))
    have hall : Cube.allReferences c host (cube :: rest) =
        (cube.ownReferences c host).map (·.2) ++ Cube.allReferences c host rest := rfl
    have hextends := Registry.extends_insertAll (Cube.allReferences c host rest)
      (r := (registry.insertAll ((cube.ownReferences c host).map (·.2))).2)
    rw [hall, Registry.insertAll_append]
    refine ⟨((cube.toBoneCube c host scale).run registry).value.1 :: built, ?_,
      .cons (hbuilt.mono (getElem?_toList_of_extends hextends)) hrest⟩
    rw [List.mapM_cons, Referencing.run_bind hrun, Referencing.run_bind hruns]
    refine Noted.ext rfl (congrArg (_ ++ ·) ?_)
    exact List.append_nil _

/-- The bone of a block adds the references of its faces to the registry, and its faces name
them. -/
theorem run_buildBone (h : registry.Points) (shape : String) (cubes : List (Cube α)) :
    ∃ bone, (buildBone c host shape cubes scale).run registry =
        ⟨(bone, (registry.insertAll (Cube.allReferences c host cubes)).2),
          Cube.faceNotes c host cubes⟩ ∧
      bone.IsBuilt c host shape scale
        (registry.insertAll (Cube.allReferences c host cubes)).2.toList cubes := by
  obtain ⟨built, hrun, hbuilt⟩ := run_mapM_toBoneCube c host scale cubes h
  rw [buildBone, Referencing.run_bind hrun]
  exact ⟨_, Noted.ext rfl (List.append_nil _), ⟨rfl, hbuilt⟩⟩

end

end BlockModels
