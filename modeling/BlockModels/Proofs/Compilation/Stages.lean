import BlockModels.Compilation.Basic
import BlockModels.Proofs.Lists
import BlockModels.Proofs.Texture.Registration

/-!
# The stages of a run

A run makes the bones of its palette, resolves the references that they collected, loads what these
were resolved to, and makes the atlas of that. Each stage has only the results of those before it to
work on, so a compilation is the result of a run if and only if it agrees with the stages one by one
(`compile_eq_ok_iff`).
-/

namespace BlockModels

namespace Noted

variable {β γ : Type}

/-- Of two computations one after the other there is a result if there is one of each. -/
theorem value_run_bind_eq_ok_iff {x : ExceptT Failure Noted β} {f : β → ExceptT Failure Noted γ}
    {b : γ} : (x >>= f).run.value = .ok b ↔ ∃ a, x.run.value = .ok a ∧ (f a).run.value = .ok b := by
  rw [ExceptT.run_bind, value_bind]
  cases x.run.value with
  | error e => simp
  | ok a => simp

theorem value_run_liftM (x : Noted β) :
    (liftM x : ExceptT Failure Noted β).run.value = .ok x.value := rfl

theorem value_run_pure (b : β) : (pure b : ExceptT Failure Noted β).run.value = .ok b := rfl

/-- What is there or else a failure. -/
theorem value_run_elim_eq_ok_iff {x : Option β} {failure : Failure} {b : β} :
    (x.elim (throw failure) pure : ExceptT Failure Noted β).run.value = .ok b ↔ x = some b := by
  cases x with
  | none => exact iff_of_false nofun nofun
  | some a =>
    rw [Option.some.injEq]
    exact Except.ok.injEq a b ▸ Iff.rfl

end Noted

section

variable {α : Type} [Scalar α] (c : Catalog α) (settings : Settings α) (find : FileLookup)
  (palette : List Block)

/-- The images of the fragments of a compilation. -/
def Compilation.imagesOf (r : Compilation α) : List (ImageFragment α) :=
  (c.loadFragments find r.fragments).value

/-- A compilation agrees with the stages of a run. -/
structure Compilation.IsStaged (r : Compilation α) : Prop where
  bones : ∃ bones, (compileBones c settings palette).run.value = .ok (bones, r.references) ∧
    r.bones = bones.map (·.trimmed r.placements)
  resolved : (resolveTextures c r.references).value = (r.fragmentOf, r.fragments)
  atlas : Atlas.ofFragments? (r.imagesOf c find) settings.outline = some r.atlas
  placements : r.placements = placementsOf r.fragmentOf r.atlas.placements
  images : r.images = settings.opacities.map fun opacity => (opacity, r.atlas.imageAt opacity)

variable {c settings find palette}

theorem value_resolveTextures (references : List (TextureReference α)) :
    (resolveTextures c references).value =
      ((Registry.empty.insertAll (references.map fun ref => (c.resolveTexture ref).value)).1,
        (Registry.empty.insertAll
          (references.map fun ref => (c.resolveTexture ref).value)).2.toList) := by
  rw [resolveTextures, Noted.value_bind, Noted.value_mapM]
  rfl

/-- Every reference has its fragment. -/
theorem Compilation.IsStaged.exists_fragment {r : Compilation α}
    (h : r.IsStaged c settings find palette) {k : Nat} {ref : TextureReference α}
    (hk : r.references[k]? = some ref) :
    ∃ i t, r.fragmentOf[k]? = some i ∧ r.fragments[i]? = some t ∧
      t.key = (c.resolveTexture ref).value.key := by
  have hresolved := h.resolved
  rw [value_resolveTextures, Prod.mk.injEq] at hresolved
  have hk' : (r.references.map fun ref => (c.resolveTexture ref).value)[k]? =
      some (c.resolveTexture ref).value := by
    rw [List.getElem?_map, hk]
    rfl
  obtain ⟨i, t, hi, ht, hkey⟩ := Registry.exists_insertAll Registry.points_empty hk'
  rw [hresolved.1] at hi
  rw [← Registry.getElem?_toList, hresolved.2] at ht
  exact ⟨i, t, hi, ht, hkey⟩

theorem Compilation.IsStaged.length_fragmentOf {r : Compilation α}
    (h : r.IsStaged c settings find palette) : r.fragmentOf.length = r.references.length := by
  have hresolved := h.resolved
  rw [value_resolveTextures, Prod.mk.injEq] at hresolved
  rw [← hresolved.1, Registry.length_insertAll, List.length_map]

/-- The compilation of a run is the one that agrees with its stages. -/
theorem compile_eq_ok_iff {r : Compilation α} :
    (compile c settings find palette).run.value = .ok r ↔ r.IsStaged c settings find palette := by
  unfold compile Compilation.ofBones
  simp only [Noted.value_run_bind_eq_ok_iff, Noted.value_run_liftM, Noted.value_run_pure,
    Noted.value_run_elim_eq_ok_iff, Except.ok.injEq, exists_eq_left']
  constructor
  · rintro ⟨⟨bones, references⟩, hbones, atlas, hatlas, rfl⟩
    exact ⟨⟨bones, hbones, rfl⟩, rfl, hatlas, rfl, rfl⟩
  · rintro ⟨⟨bones, hbones, hbones'⟩, hresolved, hatlas, hplacements, himages⟩
    refine ⟨_, hbones, r.atlas, ?_, ?_⟩
    · rw [hresolved]
      exact hatlas
    · rw [hresolved, ← hplacements, ← hbones', ← himages]

/-- A run has a result if its bones can be made and its fragments can be put on an atlas. -/
theorem exists_isStaged {bones : List (Bone α)} {references : List (TextureReference α)}
    {atlas : Atlas α}
    (hbones : (compileBones c settings palette).run.value = .ok (bones, references))
    (hatlas : Atlas.ofFragments?
      (c.loadFragments find (resolveTextures c references).value.2).value settings.outline =
        some atlas) :
    ∃ r : Compilation α, r.IsStaged c settings find palette ∧ r.references = references ∧
      r.atlas = atlas :=
  let placements := placementsOf (resolveTextures c references).value.1 atlas.placements
  ⟨{ bones := bones.map (·.trimmed placements)
     references
     fragmentOf := (resolveTextures c references).value.1
     fragments := (resolveTextures c references).value.2
     atlas
     placements
     images := settings.opacities.map fun opacity => (opacity, atlas.imageAt opacity) },
    ⟨⟨bones, hbones, rfl⟩, rfl, hatlas, rfl, rfl⟩, rfl, rfl⟩

end

end BlockModels
