import BlockModels.Proofs.Compilation.Stages
import BlockModels.Proofs.Image.Cropping

/-!
# Where faces are read from

The place of a reference is that of its fragment on the atlas. In exact arithmetic it lies in the
region of the fragment if and only if the rectangle of the fragment lies in its image, which is so
exactly if the image was not found, the rectangle was trimmed, or the rectangle that the face asks
for lies on the texture (`Compilation.Places`). Nothing brings the rectangle of a face onto the
texture: that of a cube that reaches out of its block does not lie there, and its place goes beyond
the region of its fragment.
-/

namespace BlockModels

namespace Compilation

section

variable {α : Type} [Scalar α] (c : Catalog α) (find : FileLookup) (r : Compilation α)

/-- The image of a fragment, if it was loaded. -/
def loaded? (t : TextureFragment α) : Option LoadedImage :=
  (c.loadImages find (r.fragments.map (·.path))).value.get? t.path

/-- What a fragment shows. -/
def imageOf (t : TextureFragment α) : ImageFragment α := t.apply (r.loaded? c find t)

theorem imagesOf_eq : r.imagesOf c find = r.fragments.map (r.imageOf c find) := rfl

variable {c find r} {settings : Settings α} {palette : List Block}

/-- A reference has the place of its fragment. -/
theorem IsStaged.getElem?_placements (h : r.IsStaged c settings find palette) {k i : Nat}
    {p : Placement α} (hk : r.fragmentOf[k]? = some i) (hi : r.atlas.placements[i]? = some p) :
    r.placements[k]? = some p := by
  rw [h.placements, placementsOf, List.getElem?_map, hk, Option.map_some, hi, Option.getD_some]

end

/-- The place of a reference lies in the region of its fragment exactly if the rectangle of the
fragment lies in its image, which is so if the image is not there, if the rectangle was trimmed, and
if it lies on the texture. Where the place lies in the region, it lies in the atlas, unless the
region has no width and reaches below the atlas, and it does not overlap other such places. -/
structure Places (c : Catalog Rat) (find : FileLookup) (r : Compilation Rat) : Prop where
  length_eq : r.placements.length = r.references.length
  exists_fragment : ∀ {k : Nat} {p : Placement Rat}, r.placements[k]? = some p →
    ∃ i t, r.fragmentOf[k]? = some i ∧ r.fragments[i]? = some t
  inside_iff : ∀ {k i : Nat} {t : TextureFragment Rat} {p : Placement Rat},
    r.fragmentOf[k]? = some i → r.fragments[i]? = some t → r.placements[k]? = some p →
      (p.rect.IsInside (r.atlas.slot (r.imagesOf c find) i (r.imageOf c find t)).rect ↔
        (r.imageOf c find t).IsInImage)
  inImage_iff : ∀ {t : TextureFragment Rat}, 0 < (r.imageOf c find t).image.width →
    0 < (r.imageOf c find t).image.height →
      ((r.imageOf c find t).IsInImage ↔ r.loaded? c find t = none ∨
        (r.imageOf c find t).crop.isSome = true ∨ t.rect.IsInside .unit)
  within_iff : ∀ {k i : Nat} {t : TextureFragment Rat} {p : Placement Rat},
    r.fragmentOf[k]? = some i → r.fragments[i]? = some t → r.placements[k]? = some p →
      (r.imageOf c find t).IsInImage →
        (p.rect.IsInside r.atlas.image.bounds ↔
          ¬((r.atlas.slot (r.imagesOf c find) i (r.imageOf c find t)).width = 0 ∧
            r.atlas.image.height <
              (r.atlas.slot (r.imagesOf c find) i (r.imageOf c find t)).height))
  apart : ∀ {k l i j : Nat} {t u : TextureFragment Rat} {p q : Placement Rat},
    r.fragmentOf[k]? = some i → r.fragmentOf[l]? = some j → i ≠ j →
      r.fragments[i]? = some t → r.fragments[j]? = some u →
        r.placements[k]? = some p → r.placements[l]? = some q →
          (r.imageOf c find t).IsInImage → (r.imageOf c find u).IsInImage →
            ¬p.rect.Overlaps q.rect

end Compilation

open Compilation in
/-- Every run places the faces of its palette so. -/
theorem places_of_compile {c : Catalog Rat} {settings : Settings Rat} {find : FileLookup}
    {palette : List Block} {r : Compilation Rat}
    (h : (compile c settings find palette).run.value = .ok r) : r.Places c find := by
  have hstaged := compile_eq_ok_iff.1 h
  have hplaces := Atlas.places_of_ofFragments? hstaged.atlas
  have himage : ∀ {i : Nat} {t : TextureFragment Rat}, r.fragments[i]? = some t →
      (r.imagesOf c find)[i]? = some (r.imageOf c find t) := by
    intro i t ht
    rw [imagesOf_eq, List.getElem?_map, ht]
    rfl
  -- The place of a reference is that of its fragment.
  have hplace : ∀ {k i : Nat} {t : TextureFragment Rat} {p : Placement Rat},
      r.fragmentOf[k]? = some i → r.fragments[i]? = some t →
        r.placements[k]? = some p → r.atlas.placements[i]? = some p := by
    intro k i t p hk ht hp
    have hi : i < r.atlas.placements.length := by
      rw [hplaces.length_eq]
      exact (List.getElem?_eq_some_iff.1 (himage ht)).1
    have hq := List.getElem?_eq_getElem hi
    rw [hstaged.getElem?_placements hk hq] at hp
    rw [hq, hp]
  have hlength : r.placements.length = r.references.length := by
    rw [hstaged.placements, placementsOf, List.length_map, hstaged.length_fragmentOf]
  exact {
    length_eq := hlength
    exists_fragment := by
      intro k p hp
      have hk : k < r.references.length := hlength ▸ (List.getElem?_eq_some_iff.1 hp).1
      obtain ⟨i, t, hi, ht, -⟩ := hstaged.exists_fragment (List.getElem?_eq_getElem hk)
      exact ⟨i, t, hi, ht⟩
    inside_iff := fun hk ht hp => hplaces.inside_iff (himage ht) (hplace hk ht hp)
    inImage_iff := fun {t} hwidth hheight => t.isInImage_apply_iff _ hwidth hheight
    within_iff := fun hk ht hp => hplaces.within_iff (himage ht) (hplace hk ht hp)
    apart := fun hk hl hij ht hu hp hq => hplaces.apart (himage ht) (himage hu) (hplace hk ht hp)
      (hplace hl hu hq) hij }

open Compilation in
/-- Four sheets, of which the second and the fourth hang out of their block below. The places of
their faces are higher than their regions: that of the second overlaps the place of the third, which
is apart from that of the first, and that of the fourth goes beyond the atlas. -/
theorem places_of_compile_of_overhang :
    let sheet (y height : Rat) : Template Rat :=
      { pos := some ⟨0, y, 8⟩, size := some ⟨16, height, 0⟩, texturePath := some "sheet.png" }
    let sheets := [sheet 0 16, sheet (-4) 16, sheet 0 8, sheet (-12) 16]
    let c : Catalog Rat := { geometry := Table.empty.insert defaultShape sheets }
    let find : FileLookup := fun _ => some (.picture .png (.fill 4 4 ⟨255, 0, 0, 255⟩))
    ∃ r, (compile c .standard find [{ name := "sheet" }]).run.value = .ok r ∧ r.Places c find ∧
      ∃ t u p q s z, r.fragments[1]? = some t ∧ r.fragments[3]? = some u ∧
        r.placements = [p, q, s, z] ∧
        ¬q.rect.IsInside (r.atlas.slot (r.imagesOf c find) 1 (r.imageOf c find t)).rect ∧
        q.rect.Overlaps s.rect ∧ ¬p.rect.Overlaps s.rect ∧
        ¬z.rect.IsInside (r.atlas.slot (r.imagesOf c find) 3 (r.imageOf c find u)).rect ∧
        ¬z.rect.IsInside r.atlas.image.bounds := by
  intro sheet sheets c find
  let imagesOf (references : List (TextureReference Rat)) : List (ImageFragment Rat) :=
    (c.loadFragments find (resolveTextures c references).value.2).value
  let sizes : List PixelSize := [⟨4, 4⟩, ⟨4, 3⟩, ⟨4, 2⟩, ⟨4, 1⟩]
  let packing := packInOrder (stripWidth Rat sizes) sizes.zipIdx
  let rects : List (Rect Rat) :=
    [⟨⟨0, 0⟩, ⟨4, 4⟩⟩, ⟨⟨0, 4⟩, ⟨4, 4⟩⟩, ⟨⟨0, 7⟩, ⟨4, 2⟩⟩, ⟨⟨0, 9⟩, ⟨4, 4⟩⟩]
  have hcheck : ((compileBones c .standard [{ name := "sheet" }]).run.value.toOption.any fun made =>
      decide ((resolveTextures c made.2).value.1 = [0, 1, 2, 3] ∧
        Atlas.sizes (imagesOf made.2) = sizes ∧
        (imagesOf made.2).map (fun f => decide f.IsInImage) = [true, false, true, false]) &&
      (Atlas.plain? (imagesOf made.2) packing).any fun a =>
        decide (a.placements.map (·.rect) = rects ∧ a.image.bounds = ⟨⟨0, 0⟩, ⟨7, 10⟩⟩)) =
      true := by decide +kernel
  obtain ⟨⟨bones, references⟩, hmade, hcheck⟩ := (Option.any_eq_true _ _).1 hcheck
  obtain ⟨hstages, hplain⟩ := Bool.and_eq_true_iff.1 hcheck
  obtain ⟨hslots, hsizes, hwithin⟩ := of_decide_eq_true hstages
  obtain ⟨a, ha, hplaced⟩ := (Option.any_eq_true _ _).1 hplain
  have hatlas : Atlas.ofFragments? (imagesOf references) none = some a := by
    have hne : imagesOf references ≠ [] := fun hnil => by
      rw [hnil] at hsizes
      exact List.cons_ne_nil _ _ hsizes.symm
    -- The boxes come in the order of both keys, so there is nothing to sort.
    exact (Atlas.ofFragments?_of_pairwise hne hsizes (by decide) (by decide)).trans ha
  obtain ⟨r, hstaged, rfl, rfl⟩ := exists_isStaged (toOption_eq_some_iff.1 hmade) hatlas
  have hok := compile_eq_ok_iff.2 hstaged
  have hplaces := places_of_compile hok
  dsimp only [imagesOf] at hslots hwithin
  rw [hstaged.resolved] at hslots hwithin
  change (r.imagesOf c find).map _ = _ at hwithin
  rw [imagesOf_eq, List.map_map] at hwithin
  dsimp only at hslots
  have hplacements := hstaged.placements
  rw [hslots] at hplacements
  obtain ⟨hrects, hbounds⟩ := of_decide_eq_true hplaced
  obtain ⟨p, q, s, z, hlist, -, hq, hs, hz⟩ := exists_of_map_eq_four hrects
  rw [hlist] at hplacements
  have hplace : r.placements = [p, q, s, z] := hplacements
  have hoverlaps : q.rect.Overlaps s.rect := by
    rw [hq, hs]
    decide +kernel
  have hbeyond : ¬z.rect.IsInside r.atlas.image.bounds := by
    rw [hz, hbounds]
    decide +kernel
  obtain ⟨t₀, t, t₂, u, hfragments, hin₀, hin, hin₂, hin₃⟩ := exists_of_map_eq_four hwithin
  have hfragment : ∀ {i : Nat} {t' : TextureFragment Rat}, [t₀, t, t₂, u][i]? = some t' →
      r.fragments[i]? = some t' := fun hi => hfragments ▸ hi
  have hslot : ∀ {k i : Nat}, [0, 1, 2, 3][k]? = some i → r.fragmentOf[k]? = some i :=
    fun hk => hslots ▸ hk
  have hat : ∀ {k : Nat} {x : Placement Rat}, [p, q, s, z][k]? = some x →
      r.placements[k]? = some x := fun hk => hplace ▸ hk
  have hout := hplaces.inside_iff (hslot (k := 1) rfl) (hfragment rfl) (hat rfl)
  have hout' := hplaces.inside_iff (hslot (k := 3) rfl) (hfragment rfl) (hat rfl)
  have hapart := hplaces.apart (hslot (k := 0) rfl) (hslot (k := 2) rfl) (by decide)
    (hfragment rfl) (hfragment rfl) (hat rfl) (hat rfl) (of_decide_eq_true hin₀)
    (of_decide_eq_true hin₂)
  exact ⟨r, hok, hplaces, t, u, p, q, s, z, hfragment rfl, hfragment rfl, hplace,
    fun h => of_decide_eq_false hin (hout.1 h), hoverlaps, hapart,
    fun h => of_decide_eq_false hin₃ (hout'.1 h), hbeyond⟩

end BlockModels
