import BlockModels.Proofs.Catalog.Reading
import BlockModels.Proofs.Compilation.Stages
import BlockModels.Proofs.Texture.Keys
import BlockModels.Texture.Loading
import BlockModels.Texture.Resolution

/-!
# What references come to

A reference with finite numbers is resolved to a fragment with finite numbers
(`isFinite_resolveTexture`): colours are finite, and so are the opacities of a catalog if they were
read from data. Of the images of fragments each is the one that its path has by itself, whatever
others are loaded (`get?_loadImages`), and which are loaded depends on the set of paths alone
(`loadImages_congr`).
-/

namespace BlockModels

/-! ## Colours -/

/-- A hexadecimal digit is below 16. -/
theorem hexNibble?_lt {ch : Char} {n : Nat} (h : hexNibble? ch = some n) : n < 16 := by
  unfold hexNibble? at h
  split at h
  next hdigit =>
    have hle : ch.toNat ≤ 57 := (Char.isDigit_iff_toNat.1 hdigit).2
    cases h
    change ch.toNat - 48 < 16
    omega
  · split at h
    next hlower =>
      have hle : ch.toNat ≤ 102 := hlower.2
      cases h
      change ch.toNat - 97 + 10 < 16
      omega
    · split at h
      next hupper =>
        have hle : ch.toNat ≤ 70 := hupper.2
        cases h
        change ch.toNat - 65 + 10 < 16
        omega
      · cases h

/-- A channel of a colour fits into a byte. -/
theorem hexChannels?_le {cs : List Char} {v : Vec3 Nat} (h : hexChannels? cs = some v) :
    v.x ≤ 255 ∧ v.y ≤ 255 ∧ v.z ≤ 255 := by
  unfold hexChannels? at h
  split at h
  next a b c d e f hmap =>
    have hlt : ∀ n ∈ [a, b, c, d, e, f], n < 16 := by
      intro n hn
      obtain ⟨ch, -, hch⟩ := exists_of_mem_mapM hmap hn
      exact hexNibble?_lt hch
    simp only [List.mem_cons, List.not_mem_nil, or_false, forall_eq_or_imp, forall_eq] at hlt
    cases h
    refine ⟨?_, ?_, ?_⟩ <;> simp only <;> omega
  · cases h

section

variable {α : Type} [Scalar α]

/-- Every opacity of a catalog is finite. -/
def Catalog.HasFiniteOpacities (c : Catalog α) : Prop :=
  ∀ name opacity, c.transparency.get? name = some opacity → Scalar.isFinite opacity = true

/-- A tint, if there is one, is finite. -/
def IsFiniteTint (t : Option (Tint α)) : Prop := ∀ tint ∈ t, tint.rgb.isFinite = true

variable [WrittenScalar α]

/-- A colour that is read is finite. -/
theorem isFinite_parseColor? {color : String} {rgb : Vec3 α} (h : parseColor? color = some rgb) :
    rgb.isFinite = true := by
  obtain ⟨v, hv, rfl⟩ := Option.map_eq_some_iff.1 h
  obtain ⟨hx, hy, hz⟩ := hexChannels?_le hv
  simp only [Vec3.isFinite, Vec3.toList, Vec3.map, List.all_cons, List.all_nil, Bool.and_true,
    Bool.and_eq_true]
  exact ⟨WrittenScalar.isFinite_channel hx, WrittenScalar.isFinite_channel hy,
    WrittenScalar.isFinite_channel hz⟩

/-! ## Fragments -/

/-- The tint of a key is finite. -/
theorem isFiniteTint_keyTint (key color : String) (likePng : Bool) :
    IsFiniteTint (keyTint key color likePng : Noted (Option (Tint α))).value := by
  rw [keyTint]
  split
  next rgb h =>
    rintro tint ⟨⟩
    exact isFinite_parseColor? h
  · exact nofun

variable {c : Catalog α}

/-- Whatever tint is chosen is finite, if the reference's own is. -/
theorem isFiniteTint_chooseTint {own : Option (Tint α)} (h : IsFiniteTint own) (key : String)
    (chosen : TerrainVariant) : IsFiniteTint (c.chooseTint key chosen own).value := by
  have hrest : ∀ {fallback : Noted (Option (Tint α))}, IsFiniteTint fallback.value →
      ∀ fromImage : Option (Tint α), IsFiniteTint fromImage →
        IsFiniteTint (if fromImage.isSome then pure fromImage else fallback : Noted _).value := by
    intro fallback hfallback fromImage hfromImage
    split
    · exact hfromImage
    · exact hfallback
  have hnone : IsFiniteTint (pure none : Noted (Option (Tint α))).value := nofun
  rw [Catalog.chooseTint]
  split
  · exact h
  cases chosen.tintColor with
  | none =>
    cases c.tints.get? key with
    | none => exact hrest hnone _ nofun
    | some rule => exact hrest (isFiniteTint_keyTint _ _ _) _ nofun
  | some color =>
    cases c.tints.get? key with
    | none => exact hrest hnone _ (isFiniteTint_keyTint _ _ _)
    | some rule => exact hrest (isFiniteTint_keyTint _ _ _) _ (isFiniteTint_keyTint _ _ _)

/-- The tint with which a key is resolved is finite, if the reference's own is. -/
theorem isFiniteTint_resolveKey {own : Option (Tint α)} (h : IsFiniteTint own) (key : String)
    (variant : Int64) : IsFiniteTint (c.resolveKey key variant own).value.2 := by
  rw [Catalog.resolveKey]
  split
  · exact h
  · exact h
  · exact isFiniteTint_chooseTint h _ _

/-- The opacity of a block is one of the catalog's, or the default of one. -/
theorem isFinite_blockOpacity (hc : c.HasFiniteOpacities) (owner : String) :
    Scalar.isFinite (c.blockOpacity owner) = true := by
  unfold Catalog.blockOpacity
  cases hget : c.transparency.get? owner with
  | none => exact WrittenScalar.isFinite_one
  | some opacity => exact hc owner opacity hget

/-- What has finite numbers is resolved to what has finite numbers. -/
theorem isFinite_resolveTexture (hc : c.HasFiniteOpacities) {ref : TextureReference α}
    (h : ref.isFinite = true) : (c.resolveTexture ref).value.isFinite = true := by
  obtain ⟨hrect, htint⟩ := Bool.and_eq_true_iff.1 h
  have hown : IsFiniteTint (ref.tint.map fun rgb : Vec3 α => ({ rgb } : Tint α)) := by
    intro tint hmem
    obtain ⟨rgb, hrgb, rfl⟩ := Option.map_eq_some_iff.1 hmem
    rwa [hrgb] at htint
  have hfinite : ∀ {t : TextureFragment α}, t.rect = ref.rect → IsFiniteTint t.tint →
      Scalar.isFinite t.opacity = true → t.isFinite = true := by
    intro t hrect' htint' hopacity
    rw [TextureFragment.isFinite, hrect', hrect, hopacity, Bool.true_and, Bool.and_true,
      Option.all_eq_true]
    exact htint'
  rw [Catalog.resolveTexture]
  split
  · exact hfinite rfl hown WrittenScalar.isFinite_one
  · exact hfinite rfl (isFiniteTint_resolveKey hown _ _) (isFinite_blockOpacity hc _)
  · exact hfinite rfl (isFiniteTint_resolveKey hown _ _) (isFinite_blockOpacity hc _)

/-! ## References of faces -/

/-- The colour that a cube asks for is finite. -/
theorem isFinite_tint (cube : Cube α) : cube.tint.value.all Vec3.isFinite = true := by
  rw [Cube.tint]
  split
  · rfl
  split
  next rgb h => exact isFinite_parseColor? h
  · rfl

end

/-! ## Images -/

section

variable {α : Type} (c : Catalog α) (find : FileLookup)

/-- Every path has the image that it has by itself, in whatever order the paths are loaded. -/
theorem get?_loadEach (load : String → Noted (Option LoadedImage)) {paths : List String}
    {path : String} (h : path ∈ paths) :
    (loadEach load paths).value.get? path = (load path).value := by
  rw [loadEach, Noted.value_bind, Noted.value_mapM, Noted.value_pure, Table.get?_ofList]
  -- An entry is a path with its image.
  have hmem : ∀ e : String × LoadedImage,
      e ∈ ((paths.map fun path => ((load path >>= fun image =>
          pure (image.map fun image => (path, image))).value)).filterMap id).reverse ↔
        e.1 ∈ paths ∧ (load e.1).value = some e.2 := by
    intro e
    simp only [List.mem_reverse, List.mem_filterMap, List.mem_map, id_eq, Noted.value_bind,
      Noted.value_pure]
    constructor
    · rintro ⟨o, ⟨path, hpath, rfl⟩, ho⟩
      obtain ⟨image, himage, rfl⟩ := Option.map_eq_some_iff.1 ho
      exact ⟨hpath, himage⟩
    · rintro ⟨hpath, himage⟩
      exact ⟨_, ⟨e.1, hpath, rfl⟩, by rw [himage]; rfl⟩
  exact Table.lookup_eq_of_forall (f := fun path => (load path).value)
    (fun e he => ((hmem e).1 he).2) fun image himage => (hmem _).2 ⟨h, himage⟩

/-- A path that is loaded has the image that it has by itself. -/
theorem get?_loadImages {paths : List String} {path : String} (h : path ∈ paths) :
    (c.loadImages find paths).value.get? path = (c.loadImage find path).value :=
  get?_loadEach _ (NameSet.mem_keys_ofNames.2 h)

/-- Which images are loaded depends on the set of paths alone. -/
theorem loadImages_congr {paths paths' : List String} (h : ∀ path, path ∈ paths ↔ path ∈ paths') :
    c.loadImages find paths = c.loadImages find paths' := by
  rw [Catalog.loadImages, Catalog.loadImages, NameSet.ofNames_congr h]

end

end BlockModels
