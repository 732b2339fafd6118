import BlockModels.Compilation.Basic
import BlockModels.Proofs.Compilation.Stages
import BlockModels.Proofs.Expansion.Asking
import BlockModels.Proofs.Mesh.Referencing

/-!
# The blocks of a palette

The blocks of a palette share two things while their bones are made: the shapes that were asked for
and the registry of references. Neither changes what a block comes to. Its cubes are those that it
has when nothing was asked for before (`blockCubes`), and its bone is made of these
(`Bone.IsMade`). So a palette has bones exactly if each of its blocks has cubes by itself
(`run_compileBones`); the registry then holds the references of all faces in order, and the notes
are those of the blocks, up to their order.
-/

namespace BlockModels

section

variable {α : Type} [Scalar α] (c : Catalog α) (settings : Settings α)

/-- The shape of a block of the palette and the cubes of this shape, unless the block is ignored. -/
def blockCubes (b : Block) : Expanding (Option (String × List (Cube α))) := do
  if c.isIgnored b.name then return none
  let shape ← Expanding.ofLookup (c.resolveShape (c.admitted b).name)
  let cubes ← expand c settings.limits (c.admitted b) shape
  return some (shape, cubes)

/-- The bone of a block of the palette with a shape and the cubes of this shape. -/
def blockBone (b : Block) : Option (String × List (Cube α)) → Referencing α (Bone α)
  | none => pure (.empty b.shortName settings.scale)
  | some (shape, cubes) => buildBone c (c.admitted b) shape cubes settings.scale

/-- The references of the faces of a block of the palette. -/
def blockReferences (b : Block) : Option (String × List (Cube α)) → List (TextureReference α)
  | none => []
  | some (_, cubes) => Cube.allReferences c (c.admitted b) cubes

/-- The notes on the faces of a block of the palette. -/
def blockNotes (b : Block) : Option (String × List (Cube α)) → List Diagnostic
  | none => []
  | some (_, cubes) => Cube.faceNotes c (c.admitted b) cubes

/-- A bone is made of the cubes of a block of the palette, or empty. -/
def Bone.IsMade (references : List (TextureReference α)) (b : Block)
    (made : Option (String × List (Cube α))) (bone : Bone α) : Prop :=
  match made with
  | none => bone = .empty b.shortName settings.scale
  | some (shape, cubes) => bone.IsBuilt c (c.admitted b) shape settings.scale references cubes

/-- A block is compiled in two steps: its cubes, and then its bone. -/
theorem compileBlock_eq (b : Block) : compileBlock c settings b =
    liftM (blockCubes c settings b) >>= fun made =>
      Compiling.ofReferencing (blockBone c settings b made) := by
  simp only [compileBlock, blockCubes]
  split
  · rfl
  · simp only [liftM_bind, liftM_pure, bind_assoc, pure_bind, blockBone]

variable {c settings}

/-- What comes behind the references makes no difference. -/
theorem Bone.IsMade.mono {references references' : List (TextureReference α)}
    (h : ∀ (i : Nat) ref, references[i]? = some ref → references'[i]? = some ref) {b : Block}
    {made : Option (String × List (Cube α))} {bone : Bone α}
    (hmade : bone.IsMade c settings references b made) :
    bone.IsMade c settings references' b made := by
  cases made with
  | none => exact hmade
  | some made => exact Bone.IsBuilt.mono h hmade

variable (c settings) in
/-- The cubes of a block do not depend on what was asked for before. -/
theorem isSteady_blockCubes (b : Block) : Expanding.IsSteady c (blockCubes c settings b) := by
  rw [blockCubes]
  split
  · exact .pure _
  · exact .bind (.resolveShape _) fun shape => .bind (isSteady_expand _ _ _ shape) fun _ => .pure _

variable {registry : Registry (TextureReference α)} {memo : ShapeMemo}

variable [WrittenScalar α]

variable (settings) in
/-- The bone of a block is made of its cubes; it registers their references, one after another. -/
theorem run_blockBone (h : registry.Points) (b : Block) (made : Option (String × List (Cube α))) :
    ∃ bone, (blockBone c settings b made).run registry =
        ⟨(bone, (registry.insertAll (blockReferences c b made)).2), blockNotes c b made⟩ ∧
      bone.IsMade c settings (registry.insertAll (blockReferences c b made)).2.toList b made := by
  cases made with
  | none => exact ⟨_, rfl, rfl⟩
  | some made => exact run_buildBone c _ _ h made.1 made.2

/-! ## One block after the other -/

namespace Compiling

variable {β γ : Type}

omit [Scalar α] in
/-- The registry and the memo go from the first part to the next. -/
theorem bind_apply (x : Compiling α β) (f : β → Compiling α γ)
    (registry : Registry (TextureReference α)) (memo : ShapeMemo) :
    (x >>= f) registry memo = x registry memo >>= fun p => f p.1.1 p.1.2 p.2 := rfl

omit [Scalar α] in
/-- An expansion that succeeds within a run leaves the references alone. -/
theorem run_liftM_of_ok (registry : Registry (TextureReference α)) {x : Expanding β} {v : β}
    {memo' : ShapeMemo}
    (h : (x memo).run.value = .ok (v, memo')) :
    ((liftM x : Compiling α β) registry memo).run =
      ⟨.ok ((v, registry), memo'), (x memo).run.notes⟩ := by
  change (x memo >>= fun p => pure ((p.1, registry), p.2)).run = _
  rw [Deciding.run_bind_of_ok h]
  exact Noted.ext rfl (List.append_nil _)

omit [Scalar α] in
/-- An expansion that fails within a run makes the run fail, with its notes. -/
theorem run_liftM_of_error (registry : Registry (TextureReference α)) {x : Expanding β}
    {failure : Failure}
    (h : (x memo).run.value = .error failure) :
    ((liftM x : Compiling α β) registry memo).run = ⟨.error failure, (x memo).run.notes⟩ :=
  Deciding.run_bind_of_error h

omit [Scalar α] in
/-- Taking references does not fail, and asks for no shapes. -/
theorem run_ofReferencing (x : Referencing α β) : (ofReferencing x registry memo).run =
    ⟨.ok ((x.run registry).value, memo), (x.run registry).notes⟩ := by
  refine Noted.ext rfl ?_
  change (_ ++ []) ++ [] = _
  rw [List.append_nil, List.append_nil]
  rfl

end Compiling

/-- What a block does with the registry and the memo. -/
theorem run_compileBlock {b : Block} {made : Option (String × List (Cube α))}
    {names : List String} {own : List Diagnostic}
    (h : Expanding.Steady c (blockCubes c settings b) (.ok made) names own)
    (hregistry : registry.Points) (hmemo : memo.IsFaithful c) :
    ∃ bone notes, (compileBlock c settings b registry memo).run =
        ⟨.ok ((bone, (registry.insertAll (blockReferences c b made)).2), memo.asked c names),
          notes⟩ ∧
      notes.Perm (own ++ blockNotes c b made ++ memo.freshNotes c names) ∧
      bone.IsMade c settings (registry.insertAll (blockReferences c b made)).2.toList b made := by
  obtain ⟨bone, hrun, hmade⟩ := run_blockBone settings hregistry b made
  have hlift := Compiling.run_liftM_of_ok registry (h.value_eq memo hmemo)
  refine ⟨bone, (blockCubes c settings b memo).run.notes ++ blockNotes c b made, ?_, ?_, hmade⟩
  · have hvalue := congrArg Noted.value hlift
    rw [compileBlock_eq, Compiling.bind_apply, Deciding.run_bind_of_ok hvalue, hlift]
    rw [Compiling.run_ofReferencing, hrun]
  · refine ((h.perm_notes memo hmemo).append_right _).trans ?_
    rw [List.append_assoc, List.append_assoc]
    exact .append_left _ List.perm_append_comm

omit [WrittenScalar α] in
/-- A block without cubes has no bone. -/
theorem value_compileBlock_of_error {b : Block} {failure : Failure} {names : List String}
    {own : List Diagnostic}
    (h : Expanding.Steady c (blockCubes c settings b) (.error failure) names own)
    (hmemo : memo.IsFaithful c) :
    (compileBlock c settings b registry memo).run.value = .error failure := by
  have hlift := Compiling.run_liftM_of_error registry (h.value_eq memo hmemo)
  rw [compileBlock_eq, Compiling.bind_apply,
    Deciding.run_bind_of_error (congrArg Noted.value hlift)]

/-! ## A whole palette -/

/-- What the blocks of a palette come to by themselves: their cubes, the names whose shapes they ask
for, and their notes apart from those on shapes. -/
structure Parts (α : Type) where
  made : Block → Option (String × List (Cube α))
  names : Block → List String
  own : Block → List Diagnostic

variable (c settings) in
/-- The blocks have these cubes by themselves, and take these notes. -/
def Parts.AreOf (p : Parts α) (palette : List Block) : Prop :=
  ∀ b ∈ palette, Expanding.Steady c (blockCubes c settings b) (.ok (p.made b)) (p.names b) (p.own b)

variable (c) in
/-- The references of the faces of a palette, in the order in which they are put into the registry.
-/
def Parts.references (p : Parts α) (palette : List Block) : List (TextureReference α) :=
  palette.flatMap fun b => blockReferences c b (p.made b)

variable (c) in
/-- The notes on the bones of a palette. -/
def Parts.notes (p : Parts α) (memo : ShapeMemo) (palette : List Block) : List Diagnostic :=
  (palette.flatMap fun b => p.own b ++ blockNotes c b (p.made b)) ++
    memo.freshNotes c (palette.flatMap p.names)

/-- A palette is compiled block by block, each to the bone of its own parts, by induction on the
palette. -/
theorem run_mapM_compileBlock {p : Parts α} {palette : List Block} (h : p.AreOf c settings palette)
    (hregistry : registry.Points) (hmemo : memo.IsFaithful c) :
    ∃ bones notes, (palette.mapM (compileBlock c settings) registry memo).run =
        ⟨.ok ((bones, (registry.insertAll (p.references c palette)).2),
          memo.asked c (palette.flatMap p.names)), notes⟩ ∧
      notes.Perm (p.notes c memo palette) ∧
      List.Forall₂ (fun b bone => bone.IsMade c settings
        (registry.insertAll (p.references c palette)).2.toList b (p.made b)) palette bones := by
  induction palette generalizing registry memo with
  | nil => exact ⟨[], [], rfl, .nil, .nil⟩
  | cons b rest ih =>
    obtain ⟨bone, notes, hrun, hnotes, hmade⟩ :=
      run_compileBlock (h b List.mem_cons_self) hregistry hmemo
    obtain ⟨bones, notes', hruns, hnotes', hmades⟩ :=
      ih (fun b hb => h b (List.mem_cons_of_mem _ hb))
        (Registry.points_insertAll hregistry (blockReferences c b (p.made b)))
        (hmemo.asked (p.names b))
    have hreferences : p.references c (b :: rest) =
        blockReferences c b (p.made b) ++ p.references c rest := rfl
    have hextends := Registry.extends_insertAll (p.references c rest)
      (r := (registry.insertAll (blockReferences c b (p.made b))).2)
    rw [hreferences, Registry.insertAll_append]
    refine ⟨bone :: bones, notes ++ notes', ?_, ?_,
      .cons (hmade.mono (getElem?_toList_of_extends hextends)) hmades⟩
    · rw [List.mapM_cons, Compiling.bind_apply,
        Deciding.run_bind_of_ok (congrArg Noted.value hrun), hrun, Compiling.bind_apply,
        Deciding.run_bind_of_ok (congrArg Noted.value hruns), hruns, List.flatMap_cons,
        ShapeMemo.asked_append]
      exact Noted.ext rfl (congrArg (notes ++ ·) (List.append_nil notes'))
    · refine (hnotes.append hnotes').trans ?_
      simp only [Parts.notes, List.flatMap_cons, ShapeMemo.freshNotes_append, List.append_assoc]
      exact .append_left _ (.append_left _ (List.perm_append_comm_assoc _ _ _))

/-- A palette is compiled to the bones of its parts, starting with nothing. -/
theorem run_compileBones {p : Parts α} {palette : List Block} (h : p.AreOf c settings palette) :
    ∃ bones notes, (compileBones c settings palette).run =
        ⟨.ok (bones, (Registry.empty.insertAll (p.references c palette)).2.toList), notes⟩ ∧
      notes.Perm (p.notes c .empty palette) ∧
      List.Forall₂ (fun b bone => bone.IsMade c settings
        (Registry.empty.insertAll (p.references c palette)).2.toList b (p.made b))
          palette bones := by
  obtain ⟨bones, notes, hrun, hnotes, hmade⟩ :=
    run_mapM_compileBlock h Registry.points_empty ShapeMemo.isFaithful_empty
  refine ⟨bones, notes, ?_, hnotes, hmade⟩
  change (palette.mapM (compileBlock c settings) Registry.empty (.empty : ShapeMemo) >>= _).run = _
  rw [Deciding.run_bind_of_ok (congrArg Noted.value hrun), hrun]
  exact Noted.ext rfl (List.append_nil notes)

/-- If a palette is compiled, the cubes of each of its blocks are found by themselves. -/
theorem exists_steady_of_mapM {palette : List Block} (hregistry : registry.Points)
    (hmemo : memo.IsFaithful c) {v : (List (Bone α) × Registry (TextureReference α)) × ShapeMemo}
    (h : (palette.mapM (compileBlock c settings) registry memo).run.value = .ok v) :
    ∀ b ∈ palette, ∃ made names own,
      Expanding.Steady c (blockCubes c settings b) (.ok made) names own := by
  induction palette generalizing registry memo v with
  | nil => exact fun b hb => absurd hb List.not_mem_nil
  | cons b rest ih =>
    rw [List.mapM_cons, Compiling.bind_apply] at h
    obtain ⟨outcome, names, own, hsteady⟩ := isSteady_blockCubes c settings b
    cases outcome with
    | error failure =>
      rw [Deciding.run_bind_of_error (value_compileBlock_of_error hsteady hmemo)] at h
      cases h
    | ok made =>
      obtain ⟨bone, notes, hrun, -, -⟩ := run_compileBlock hsteady hregistry hmemo
      rw [Deciding.run_bind_of_ok (congrArg Noted.value hrun), Compiling.bind_apply] at h
      obtain ⟨w, hw, -⟩ := Noted.value_run_bind_eq_ok_iff.1 h
      have hrest := ih (Registry.points_insertAll hregistry _) (hmemo.asked names) hw
      intro b' hb'
      rcases List.mem_cons.1 hb' with rfl | hb'
      · exact ⟨made, names, own, hsteady⟩
      · exact hrest b' hb'

/-- Where there are bones every block has cubes by itself. -/
theorem exists_parts {palette : List Block} {v : List (Bone α) × List (TextureReference α)}
    (h : (compileBones c settings palette).run.value = .ok v) :
    ∃ p : Parts α, p.AreOf c settings palette := by
  obtain ⟨w, hw, -⟩ := Noted.value_run_bind_eq_ok_iff.1 h
  have hsteady := exists_steady_of_mapM Registry.points_empty ShapeMemo.isFaithful_empty hw
  choose! made names own hparts using hsteady
  exact ⟨⟨made, names, own⟩, hparts⟩

end

end BlockModels
