import BlockModels.Proofs.Compilation.Viewing
import BlockModels.Proofs.Scalar.Decimals

/-!
# A palette is no more than its blocks

A run shows of each block what any other run shows of it (`Compilation.IsComposed.same`): the view
of a bone is the one that its block has by itself. The order of the palette makes no difference for
anything but the order of the results: the references are the same up to their order, and so are
the fragments to which they are resolved, the images that are loaded and what is packed. Hence the
notes of a run are the same up to their order, and so are the extent of the atlas and how much of it
is filled (`Compilation.IsComposed.reordered`).
-/

namespace BlockModels

section

variable {α : Type} [Scalar α] (c : Catalog α) (settings : Settings α) (find : FileLookup)

/-- What a run makes of its palette, it makes of the blocks one by one. What is shown of a block is
the same in every run that has it, in particular in one that has no other block; and a run of the
same blocks in another order succeeds, takes the same notes, and makes an atlas of the same extent
of which as much is filled. -/
structure Compilation.IsComposed (palette : List Block) (r : Compilation α) : Prop where
  shown : ∀ bone ∈ r.bones, ∀ cube ∈ (r.view bone).cubes, none ∉ cube.faces
  same : ∀ {palette' : List Block} {r' : Compilation α},
    (compile c settings find palette').run.value = .ok r' →
      ∀ {i j : Nat} {b : Block}, palette[i]? = some b → palette'[j]? = some b →
        ∃ bone bone', r.bones[i]? = some bone ∧ r'.bones[j]? = some bone' ∧
          r.view bone = r'.view bone'
  alone : ∀ {i : Nat} {b : Block} {r' : Compilation α}, palette[i]? = some b →
    (compile c settings find [b]).run.value = .ok r' →
      ∃ bone bone', r.bones[i]? = some bone ∧ r'.bones = [bone'] ∧ r.view bone = r'.view bone'
  reordered : ∀ {palette' : List Block}, palette.Perm palette' →
    ∃ r', (compile c settings find palette').run.value = .ok r' ∧
      (compile c settings find palette).run.notes.Perm
        (compile c settings find palette').run.notes ∧
      r'.atlas.image.width = r.atlas.image.width ∧ r'.atlas.image.height = r.atlas.image.height ∧
        r'.atlas.efficiency = r.atlas.efficiency

/-! ## Runs by their stages -/

variable {c settings find} {palette : List Block} {r : Compilation α}

/-- To take notes is no decision. -/
theorem Deciding.run_liftM {β : Type} (x : Noted β) :
    (liftM x : Deciding β).run = ⟨.ok x.value, x.notes⟩ := Noted.ext rfl (List.append_nil _)

/-- The result and the notes of the second part of a run. -/
theorem run_ofBones (bones : List (Bone α)) (references : List (TextureReference α)) {a : Atlas α}
    (ha : Atlas.ofFragments?
      (c.loadFragments find (resolveTextures c references).value.2).value settings.outline =
        some a) :
    ∃ r, (Compilation.ofBones c settings find bones references).run =
        ⟨.ok r, (resolveTextures c references).notes ++
          (c.loadFragments find (resolveTextures c references).value.2).notes⟩ ∧
      r.atlas = a := by
  rw [Compilation.ofBones, Deciding.run_bind_of_ok (congrArg Noted.value (Deciding.run_liftM _)),
    Deciding.run_bind_of_ok (congrArg Noted.value (Deciding.run_liftM _)), ha]
  simp only [Deciding.run_liftM, Option.elim_some, pure_bind]
  refine ⟨_, Noted.ext rfl ?_, rfl⟩
  exact congrArg ((resolveTextures c references).notes ++ ·) (List.append_nil _)

/-- The result and the notes of a run. -/
theorem run_compile {bones : List (Bone α)} {references : List (TextureReference α)}
    {notes : List Diagnostic}
    (h : (compileBones c settings palette).run = ⟨.ok (bones, references), notes⟩) {a : Atlas α}
    (ha : Atlas.ofFragments?
      (c.loadFragments find (resolveTextures c references).value.2).value settings.outline =
        some a) :
    ∃ r, (compile c settings find palette).run =
        ⟨.ok r, notes ++ ((resolveTextures c references).notes ++
          (c.loadFragments find (resolveTextures c references).value.2).notes)⟩ ∧
      r.atlas = a := by
  obtain ⟨r, hrun, hatlas⟩ := run_ofBones bones references ha
  refine ⟨r, ?_, hatlas⟩
  rw [compile, Deciding.run_bind_of_ok (congrArg Noted.value h)]
  simp only [h, hrun]

/-! ## Palettes in another order -/

/-- The parts of a palette are those of it in every order. -/
theorem Parts.AreOf.perm {p : Parts α} {palette' : List Block} (h : p.AreOf c settings palette)
    (hperm : palette.Perm palette') : p.AreOf c settings palette' := fun b hb =>
  h b (hperm.mem_iff.2 hb)

/-- A palette in another order has the same references in another order. -/
theorem Parts.references_perm (p : Parts α) {palette' : List Block}
    (h : palette.Perm palette') : (p.references c palette).Perm (p.references c palette') :=
  h.flatMap_right _

/-- A palette in another order has the same notes in another order: only the note on a name that is
asked for the first time may move to another block. -/
theorem Parts.notes_perm (p : Parts α) (memo : ShapeMemo) {palette' : List Block}
    (h : palette.Perm palette') : (p.notes c memo palette).Perm (p.notes c memo palette') :=
  (h.flatMap_right _).append (ShapeMemo.perm_freshNotes (h.flatMap_right _))

/-- The notes on textures are those on each of the references. -/
theorem notes_resolveTextures (references : List (TextureReference α)) :
    (resolveTextures c references).notes =
      references.flatMap fun ref => (c.resolveTexture ref).notes := by
  rw [resolveTextures, Noted.notes_bind, Noted.notes_mapM]
  exact List.append_nil _

/-- What fragments show is what each shows by itself. -/
theorem value_loadFragments (fragments : List (TextureFragment α)) :
    (c.loadFragments find fragments).value = fragments.map (c.imageFragment find) := by
  refine List.map_congr_left fun t ht => ?_
  rw [get?_loadImages c find (List.mem_map_of_mem ht), Catalog.imageFragment]

/-- The notes on images are those on the paths. -/
theorem notes_loadFragments (fragments : List (TextureFragment α)) :
    (c.loadFragments find fragments).notes =
      (c.loadImages find (fragments.map (·.path))).notes := List.append_nil _

/-- The notes on images depend on which paths there are, and not on their order. -/
theorem notes_loadFragments_perm {fragments fragments' : List (TextureFragment α)}
    (h : fragments.Perm fragments') :
    (c.loadFragments find fragments).notes = (c.loadFragments find fragments').notes := by
  rw [notes_loadFragments, notes_loadFragments,
    loadImages_congr c find fun _ => (h.map (·.path)).mem_iff]

variable [WrittenScalar α]

/-- References in another order are resolved to the same fragments in another order. -/
theorem fragments_perm (hc : c.HasFiniteOpacities)
    {references references' : List (TextureReference α)} (h : references.Perm references')
    (hfinite : ∀ ref ∈ references, ref.isFinite = true) :
    (resolveTextures c references).value.2.Perm (resolveTextures c references').value.2 := by
  rw [value_resolveTextures, value_resolveTextures]
  refine (Registers.insertAll _).perm (Registers.insertAll _) (h.map _) ?_
  intro t ht t' _ hkey
  obtain ⟨ref, href, rfl⟩ := List.mem_map.1 ht
  exact (TextureFragment.matches_of_key hkey).eq_of_isFinite
    (isFinite_resolveTexture hc (hfinite ref href))

/-- What finite references of faces leave in the registry. -/
theorem registered_perm {references references' : List (TextureReference α)}
    (h : references.Perm references') (hfinite : ∀ ref ∈ references, ref.isFinite = true) :
    (Registry.empty.insertAll references).2.toList.Perm
      (Registry.empty.insertAll references').2.toList :=
  (Registers.insertAll _).perm (Registers.insertAll _) h fun ref href _ _ hkey =>
    (TextureReference.matches_of_key hkey).eq_of_isFinite (hfinite ref href)

/-! ## Views of entries -/

/-- The bone of an entry has the view that its block has by itself. -/
theorem exists_view (h : (compile c settings find palette).run.value = .ok r)
    (hc : c.HasFiniteOpacities) {i : Nat} {b : Block} (hi : palette[i]? = some b)
    {made : Option (String × List (Cube α))}
    (hmade : (blockCubes c settings b).runFresh.value = .ok made)
    (hown : ∀ ref ∈ blockReferences c b made, ref.isFinite = true) :
    ∃ bone, r.bones[i]? = some bone ∧ r.view bone = blockView c settings find b made := by
  obtain ⟨bone, hbone, full, ⟨made', hmade', hfull⟩, rfl⟩ :=
    exists_getElem?_right (compile_eq_ok_iff.1 h).hasBone hi
  obtain rfl : made' = made := Except.ok.inj (hmade'.symm.trans hmade)
  exact ⟨_, hbone, Compilation.view_eq h hc hfull hown⟩

/-- What a run with finite rectangles makes of an entry. -/
theorem exists_made (h : (compile c settings find palette).run.value = .ok r)
    (hfinite : ∀ ref ∈ r.references, ref.rect.isFinite = true) {b : Block} (hb : b ∈ palette) :
    ∃ made, (blockCubes c settings b).runFresh.value = .ok made ∧
      ∀ ref ∈ blockReferences c b made, ref.isFinite = true := by
  have hbones := (compile_eq_ok_iff.1 h).hasBone
  obtain ⟨bone, -, full, ⟨made, hmade, hfull⟩, -⟩ := exists_of_mem_right hbones.flip hb
  exact ⟨made, hmade, isFinite_blockReferences hfull hfinite⟩

omit [WrittenScalar α] in
/-- Everything that is on a block by itself can be shown. -/
theorem none_notMem_faces_blockView {b : Block} {made : Option (String × List (Cube α))} :
    ∀ cube ∈ (blockView c settings find b made).cubes, none ∉ cube.faces := by
  intro cube hcube hnone
  cases made with
  | none => cases hcube
  | some made =>
    obtain ⟨cube, -, rfl⟩ := List.mem_map.1 hcube
    obtain ⟨v, -, hv⟩ := List.mem_map.1 hnone
    cases hv

/-- Everything that is on the bones of a run can be shown. -/
theorem none_notMem_faces (h : (compile c settings find palette).run.value = .ok r)
    (hc : c.HasFiniteOpacities) (hfinite : ∀ ref ∈ r.references, ref.rect.isFinite = true)
    {bone : Bone α} (hbone : bone ∈ r.bones) : ∀ cube ∈ (r.view bone).cubes, none ∉ cube.faces := by
  have hbones := (compile_eq_ok_iff.1 h).hasBone
  obtain ⟨b, -, full, ⟨made, -, hfull⟩, rfl⟩ := exists_of_mem_right hbones hbone
  rw [Compilation.view_eq h hc hfull (isFinite_blockReferences hfull hfinite)]
  exact none_notMem_faces_blockView

/-- Two runs show the same of a block that both have. -/
theorem view_eq_of_same (h : (compile c settings find palette).run.value = .ok r)
    (hc : c.HasFiniteOpacities) (hfinite : ∀ ref ∈ r.references, ref.rect.isFinite = true)
    {palette' : List Block} {r' : Compilation α}
    (h' : (compile c settings find palette').run.value = .ok r') {i j : Nat} {b : Block}
    (hi : palette[i]? = some b) (hj : palette'[j]? = some b) :
    ∃ bone bone', r.bones[i]? = some bone ∧ r'.bones[j]? = some bone' ∧
      r.view bone = r'.view bone' := by
  obtain ⟨made, hmade, hown⟩ := exists_made h hfinite (List.mem_of_getElem? hi)
  obtain ⟨bone, hbone, hview⟩ := exists_view h hc hi hmade hown
  obtain ⟨bone', hbone', hview'⟩ := exists_view h' hc hj hmade hown
  exact ⟨bone, bone', hbone, hbone', hview.trans hview'.symm⟩

/-! ## Reordered runs -/

/-- The references of a palette are finite if those that stand for them are. -/
theorem isFinite_references {p : Parts α} {references : List (TextureReference α)}
    {bones : List (Bone α)} (hmade : List.Forall₂ (fun b bone =>
      bone.IsMade c settings references b (p.made b)) palette bones)
    (hfinite : ∀ ref ∈ references, ref.rect.isFinite = true) :
    ∀ ref ∈ p.references c palette, ref.isFinite = true := by
  intro ref href
  obtain ⟨b, hb, href⟩ := List.mem_flatMap.1 href
  obtain ⟨bone, -, hbone⟩ := exists_of_mem_right hmade.flip hb
  exact isFinite_blockReferences hbone hfinite ref href

/-- What follows on references does so on the same references in another order. -/
theorem exists_atlas_of_perm (hc : c.HasFiniteOpacities)
    {references references' : List (TextureReference α)} (h : references.Perm references')
    (hfinite : ∀ ref ∈ references, ref.isFinite = true) {a : Atlas α}
    (ha : Atlas.ofFragments?
      (c.loadFragments find (resolveTextures c references).value.2).value settings.outline =
        some a) :
    ((resolveTextures c references).notes ++
        (c.loadFragments find (resolveTextures c references).value.2).notes).Perm
      ((resolveTextures c references').notes ++
        (c.loadFragments find (resolveTextures c references').value.2).notes) ∧
    ∃ a', Atlas.ofFragments?
        (c.loadFragments find (resolveTextures c references').value.2).value settings.outline =
          some a' ∧
      a'.image.width = a.image.width ∧ a'.image.height = a.image.height ∧
        a'.efficiency = a.efficiency := by
  have hfragments := fragments_perm hc h hfinite
  constructor
  · rw [notes_resolveTextures, notes_resolveTextures, notes_loadFragments_perm hfragments]
    exact (h.flatMap_right _).append_right _
  · rw [value_loadFragments] at ha ⊢
    exact Atlas.ofFragments?_perm (hfragments.map _) ha

/-- A run of the same blocks in another order. -/
theorem exists_reordered (h : (compile c settings find palette).run.value = .ok r)
    (hc : c.HasFiniteOpacities) (hfinite : ∀ ref ∈ r.references, ref.rect.isFinite = true)
    {palette' : List Block} (hperm : palette.Perm palette') :
    ∃ r', (compile c settings find palette').run.value = .ok r' ∧
      (compile c settings find palette).run.notes.Perm
        (compile c settings find palette').run.notes ∧
      r'.atlas.image.width = r.atlas.image.width ∧ r'.atlas.image.height = r.atlas.image.height ∧
        r'.atlas.efficiency = r.atlas.efficiency := by
  have hstaged := compile_eq_ok_iff.1 h
  obtain ⟨full, hfull, -⟩ := hstaged.bones
  obtain ⟨p, hp⟩ := exists_parts hfull
  obtain ⟨bones, notes, hrun, hnotes, hmade⟩ := run_compileBones hp
  obtain ⟨bones', notes', hrun', hnotes', -⟩ := run_compileBones (hp.perm hperm)
  have hreferences : r.references =
      (Registry.empty.insertAll (p.references c palette)).2.toList := by
    rw [hrun] at hfull
    exact (Prod.mk.inj (Except.ok.inj hfull)).2.symm
  have hown := isFinite_references hmade (hreferences ▸ hfinite)
  have hregistered := registered_perm (p.references_perm hperm) hown
  have hkept : ∀ ref ∈ (Registry.empty.insertAll (p.references c palette)).2.toList,
      ref.isFinite = true := fun ref href =>
    hown ref ((Registers.insertAll _).mem_of_mem href)
  have hatlas := hstaged.atlas
  have hfragments : r.fragments = (resolveTextures c r.references).value.2 :=
    congrArg Prod.snd hstaged.resolved.symm
  rw [Compilation.imagesOf, hfragments, hreferences] at hatlas
  obtain ⟨hlater, a', ha', hextent⟩ := exists_atlas_of_perm hc hregistered hkept hatlas
  obtain ⟨first, hfirst, -⟩ := run_compile hrun hatlas
  obtain ⟨r', hr', rfl⟩ := run_compile hrun' ha'
  refine ⟨r', congrArg Noted.value hr', ?_, hextent⟩
  rw [hfirst, hr']
  exact (hnotes.trans ((p.notes_perm _ hperm).trans hnotes'.symm)).append hlater

/-- A run with finite rectangles makes of its palette what it makes of the blocks. The opacities of
rules that were read are finite (`hasFiniteOpacities_of_rules`), whatever the rules are. -/
theorem isComposed_of_compile (h : (compile c settings find palette).run.value = .ok r)
    (hc : c.HasFiniteOpacities) (hfinite : ∀ ref ∈ r.references, ref.rect.isFinite = true) :
    r.IsComposed c settings find palette where
  shown _ hbone := none_notMem_faces h hc hfinite hbone
  same h' _ _ _ hi hj := view_eq_of_same h hc hfinite h' hi hj
  alone hi h' := by
    obtain ⟨bone, bone', hbone, hbone', hview⟩ := view_eq_of_same h hc hfinite h' (j := 0) hi rfl
    have hlength := (compile_eq_ok_iff.1 h').hasBone.length_eq
    obtain ⟨_, hbones⟩ := List.length_eq_one_iff.1 hlength.symm
    rw [hbones] at hbone'
    cases hbone'
    exact ⟨bone, _, hbone, hbones, hview⟩
  reordered hperm := exists_reordered h hc hfinite hperm

end

/-- Two sheets with one texture. The second one has the second reference of a palette with both, and
the first one of a palette of its own; the same is shown of it. -/
theorem isComposed_of_compile_of_panes :
    let sheet : Template Float := { size := some ⟨16, 16, 0⟩, croppable := some true }
    let c : Catalog Float := {
      geometry := Table.empty.insert defaultShape [sheet]
      transparency := (Table.empty.insert "pane" 0.5).insert "window" 0.5
      faceTables := (Table.empty.insert "pane" (.all "glass")).insert "window" (.all "glass")
      terrain := Table.empty.insert "glass" [{ path := "glass" }] }
    let find : FileLookup := fun _ => some (.picture .png (.fill 2 2 ⟨255, 255, 255, 255⟩))
    let pane : Block := { name := "pane" }
    let window : Block := { name := "window" }
    let textures (bone : Bone Float) : List Nat :=
      bone.cubes.flatMap fun cube => cube.faces.map fun face => face.2.texture
    ∃ r r' bone bone', (compile c .standard find [pane, window]).run.value = .ok r ∧
      r.IsComposed c .standard find [pane, window] ∧
      (compile c .standard find [window]).run.value = .ok r' ∧
      r.bones[1]? = some bone ∧ r'.bones = [bone'] ∧ r.view bone = r'.view bone' ∧
      textures bone = [1] ∧ textures bone' = [0] := by
  intro sheet c find pane window textures
  have hboth : ((compile c .standard find [pane, window]).run.value.toOption.any fun r =>
      r.references.all (·.rect.isFinite) &&
        r.bones[1]?.any fun bone => decide (textures bone = [1])) = true := by
    decide +kernel
  have halone : ((compile c .standard find [window]).run.value.toOption.any fun r =>
      r.bones[0]?.any fun bone => decide (textures bone = [0])) = true := by
    decide +kernel
  have hc : c.HasFiniteOpacities := by
    intro name opacity hopacity
    have hhalf : Scalar.isFinite (0.5 : Float) = true := by decide +kernel
    rw [Table.get?_insert, Table.get?_insert] at hopacity
    split at hopacity
    · cases hopacity
      exact hhalf
    · split at hopacity <;> cases hopacity
      exact hhalf
  obtain ⟨r, hr, hcheck⟩ := (Option.any_eq_true _ _).1 hboth
  obtain ⟨r', hr', hcheck'⟩ := (Option.any_eq_true _ _).1 halone
  obtain ⟨hfinite, hsecond⟩ := Bool.and_eq_true_iff.1 hcheck
  obtain ⟨bone₁, hbone₁, htextures⟩ := (Option.any_eq_true _ _).1 hsecond
  obtain ⟨bone₂, hbone₂, htextures'⟩ := (Option.any_eq_true _ _).1 hcheck'
  have hok' := toOption_eq_some_iff.1 hr'
  have hcomposed := isComposed_of_compile (toOption_eq_some_iff.1 hr) hc
    (List.all_eq_true.1 hfinite)
  obtain ⟨bone, bone', hbone, hbone', hview⟩ := hcomposed.alone (i := 1) rfl hok'
  obtain rfl : bone₁ = bone := Option.some.inj (hbone₁.symm.trans hbone)
  rw [hbone'] at hbone₂
  cases hbone₂
  exact ⟨r, r', bone₁, bone₂, toOption_eq_some_iff.1 hr, hcomposed, hok', hbone, hbone', hview,
    of_decide_eq_true htextures, of_decide_eq_true htextures'⟩

end BlockModels
