import BlockModels.Proofs.Catalog.Reading
import BlockModels.Proofs.Expansion.CopyTree
import BlockModels.Proofs.Expansion.WorkList
import BlockModels.Proofs.Template.Inheritance

/-!
# The chains of an expansion

A template that is decided in an expansion was made from a chain of templates of the catalog, each
of which copies the shape of the next (`Entry.IsCopied`). Between two copies the texts of the
template are filled in for the block, and nothing else happens to it, so what the chain comes to is
what the laws of inheritance say (`Entry.IsCopied.isJoined`, `Entry.IsCopied.turns`). Every template
that waits in a queue has such a chain, and every cube has one too, from the first step of an
expansion to the last (`isKept_isCopied`).
-/

namespace BlockModels

section

variable {α : Type} [Scalar α]

/-- The templates of the catalog from which a template in the work on a block was made, beginning
with the one that was copied last. -/
inductive Entry.IsCopied (c : Catalog α) (b : Block) : List (Template α) → Entry α → Prop
  | root {shape : String} {templates : List (Template α)} {t : Template α} (path : Option String)
      (hgeometry : c.geometry.get? shape = some templates) (hmem : t ∈ templates) :
      IsCopied c b [t] ⟨t.withSpecialPath path, [shape]⟩
  | copy {ts templates : List (Template α)} {e : Entry α} {target : String} {t : Template α}
      (h : IsCopied c b ts e) (hcopy : (e.template.read b).template.copy = some target)
      (hgeometry : c.geometry.get? (splitSpecial target).1 = some templates)
      (hmem : t ∈ templates) :
      IsCopied c b (t :: ts)
        ⟨(t.withSpecialPath (splitSpecial target).2).inherit
            { (e.template.read b).template with copy := none },
          e.chain ++ [(splitSpecial target).1]⟩

/-! ## What a chain comes to -/

omit [Scalar α] in
theorem Template.withoutTexts_read (t : Template α) (b : Block) :
    (t.read b).template.withoutTexts = t.withoutTexts := rfl

/-- Whatever is joined when a template inherits is joined along its chain. -/
theorem Entry.IsCopied.isJoined {c : Catalog α} {b : Block} {ts : List (Template α)} {e : Entry α}
    (h : e.IsCopied c b ts) : Template.IsJoined ts e.template := by
  intro γ field join unit hfield hunit
  induction h with
  | @root shape templates t path hgeometry hmem =>
    have ht : field (t.withSpecialPath path) = field t := by
      rw [← hfield.withoutTexts_eq (t.withSpecialPath path), ← hfield.withoutTexts_eq t]
      rfl
    rw [List.map_singleton, List.foldr_cons, List.foldr_nil, hunit, ht]
  | @copy ts templates e target t h hcopy hgeometry hmem ih =>
    have ht : field (t.withSpecialPath (splitSpecial target).2) = field t := by
      rw [← hfield.withoutTexts_eq (t.withSpecialPath _), ← hfield.withoutTexts_eq t]
      rfl
    have hparent : field { (e.template.read b).template with copy := none } = field e.template := by
      rw [← hfield.withoutTexts_eq e.template, ← Template.withoutTexts_read e.template b,
        ← hfield.withoutTexts_eq { (e.template.read b).template with copy := none }]
      rfl
    rw [List.map_cons, List.foldr_cons, ← ih, hfield.inherit_eq, ht, hparent]

/-- Rotations are kept along the chain. -/
theorem Entry.IsCopied.turns {c : Catalog α} (hplain : c.IsPlain) {b : Block}
    {ts : List (Template α)} {e : Entry α} (h : e.IsCopied c b ts) :
    Template.Turns ts.reverse e.template := by
  induction h with
  | @root shape templates t path hgeometry hmem =>
    have hroot := Template.Turns.of_declared (hplain _ _ hgeometry t hmem)
    exact ⟨hroot.allRotations_eq, hroot.extraRotations_eq⟩
  | @copy ts templates e target t h hcopy hgeometry hmem ih =>
    have hparent : Template.Turns ts.reverse { (e.template.read b).template with copy := none } :=
      ⟨ih.allRotations_eq, ih.extraRotations_eq⟩
    have hcopied := hparent.inherit (hplain _ _ hgeometry t hmem)
    rw [List.reverse_cons]
    exact ⟨hcopied.allRotations_eq, hcopied.extraRotations_eq⟩

/-! ## Every template of an expansion has a chain -/

variable {c : Catalog α} {limits : ExpansionLimits}

theorem returns_copyTemplates_isCopied {b : Block} {ts : List (Template α)} {e : Entry α}
    {target : String} (h : e.IsCopied c b ts)
    (hcopy : (e.template.read b).template.copy = some target) :
    (copyTemplates c limits b { (e.template.read b).template with copy := none } target
      e.chain).Returns fun next => ∀ e' ∈ next, ∃ t, e'.IsCopied c b (t :: ts) := by
  simp only [copyTemplates]
  split
  · exact .refuse (List.forall_mem_nil _)
  split
  · exact .refuse (List.forall_mem_nil _)
  split
  · exact .bind_of_forall fun _ => .pure (List.forall_mem_nil _)
  next templates hgeometry =>
    refine .pure fun e' he' => ?_
    obtain ⟨t, ht, rfl⟩ := List.mem_map.1 he'
    exact ⟨t, .copy h hcopy hgeometry ht⟩

/-- A template that is decided leaves its chain to the templates that it copies, and to its cube. -/
theorem returns_decideEntry_isCopied {b : Block} (shape : String) {ts : List (Template α)}
    {e : Entry α} (h : e.IsCopied c b ts) :
    (decideEntry c limits b shape e).Returns fun d =>
      (∀ e' ∈ d.yield.next, ∃ t, e'.IsCopied c b (t :: ts)) ∧
      ∀ cube ∈ d.yield.cubes, (e.template.read b).cube? shape = some cube := by
  refine .bind (P := (· = (overrideBlock b e.template).value)) (.liftM rfl) ?_
  rintro _ rfl
  refine .bind_of_forall fun holds => ?_
  split
  · exact .pure ⟨List.forall_mem_nil _, List.forall_mem_nil _⟩
  refine .bind (P := (· = (e.template.read b).template)) (.liftM rfl) ?_
  rintro _ rfl
  split
  next target hcopy =>
    refine .bind (returns_copyTemplates_isCopied h hcopy) fun next hnext => .pure ?_
    exact ⟨hnext, List.forall_mem_nil _⟩
  · split
    · refine .bind_of_forall fun found => .pure ?_
      cases found <;> exact ⟨List.forall_mem_nil _, List.forall_mem_nil _⟩
    next hblock =>
      refine .pure ⟨List.forall_mem_nil _, List.forall_mem_singleton.2 ?_⟩
      rw [Reading.cube?, hblock]
      rfl

/-- Whatever waits in the queue of a job has a chain, and so has whatever became a cube. -/
structure Job.IsCopied (c : Catalog α) (job : Job α) : Prop where
  queue : ∀ e ∈ job.queue, ∃ ts, e.IsCopied c job.block ts
  cubes : ∀ cube ∈ job.cubes, ∃ (e : Entry α) (ts : List (Template α)),
    e.IsCopied c job.block ts ∧ (e.template.read job.block).cube? job.shape = some cube

/-- Jobs keep to chains. -/
theorem isKept_isCopied (c : Catalog α) (limits : ExpansionLimits) :
    Job.IsKept c limits (Job.IsCopied c) where
  root b shape path templates hgeometry := by
    refine ⟨fun e he => ?_, List.forall_mem_nil _⟩
    obtain ⟨t, ht, rfl⟩ := List.mem_map.1 he
    exact ⟨[t], .root path hgeometry ht⟩
  after job entry rest h hqueue := by
    have hwaiting := h.queue
    rw [hqueue] at hwaiting
    obtain ⟨⟨ts, hentry⟩, hrest⟩ := List.forall_mem_cons.1 hwaiting
    intro d hd
    obtain ⟨hnext, hcubes⟩ := returns_decideEntry_isCopied job.shape hentry d hd
    refine ⟨fun e he => ?_, fun cube hcube => ?_⟩
    · rcases List.mem_append.1 he with he | he
      · exact hrest e he
      · obtain ⟨t, ht⟩ := hnext e he
        exact ⟨t :: ts, ht⟩
    · rcases List.mem_append.1 hcube with hcube | hcube
      · exact h.cubes cube hcube
      · exact ⟨entry, ts, hentry, hcubes cube hcube⟩
  embedded _ _ h := ⟨h.queue, h.cubes⟩

/-! ## What becomes of a chain -/

/-- The faces of a cube in a bone are turned over as the cube says. -/
theorem Cube.eq_faceUse_of_mem {cube : Cube α} {host : Block} {scale : α}
    {registry : Registry (TextureReference α)} {p : Face × FaceUse}
    (h : p ∈ ((cube.toBoneCube c host scale).run registry).value.1.faces) :
    p.2 = cube.faceUse p.1 p.2.texture := by
  obtain ⟨⟨f, i⟩, -, rfl⟩ := List.mem_map.1 h
  rfl

/-- An odd number of templates flip a face; for a face that looks up or down, an even one. -/
def IsTurnedOver (ts : List (Template α)) (flips : Template α → Option NameSet) (f : Face) : Prop :=
  Xor (Odd (ts.countP fun t => Template.isListed (flips t) f.name)) (f = .up ∨ f = .down)

omit [Scalar α] in
theorem isTurnedOver_iff {ts : List (Template α)} {t : Template α}
    {flips : Template α → Option NameSet} {f : Face}
    (h : Template.isListed (flips t) f.name = true ↔
      Odd (ts.countP fun u => Template.isListed (flips u) f.name)) :
    (Template.isListed (flips t) f.name != f.isVertical) = true ↔ IsTurnedOver ts flips f := by
  have hvertical : f.isVertical = true ↔ f = .up ∨ f = .down := by
    cases f <;> simp [Face.isVertical]
  rw [IsTurnedOver, ← h, ← hvertical, xor_iff_not_iff, bne_iff_ne, ne_eq, Bool.eq_iff_iff]

/-- The chains of a catalog leave their templates what the laws of inheritance say, and their cubes
the flips. -/
structure Catalog.InheritsAlongChains (c : Catalog α) (limits : ExpansionLimits) : Prop where
  inherits : ∀ {b : Block} {ts : List (Template α)} {e : Entry α}, e.IsCopied c b ts →
    Template.Inherits ts (e.template.read b).template
  flips : ∀ {b : Block} {ts : List (Template α)} {e : Entry α} {shape : String} {cube : Cube α},
    e.IsCopied c b ts → (e.template.read b).cube? shape = some cube →
    ∀ (host : Block) (scale : α) (registry : Registry (TextureReference α)),
      ∀ p ∈ ((cube.toBoneCube c host scale).run registry).value.1.faces,
        (p.2.flipU = true ↔ IsTurnedOver ts (·.flipHorizontal) p.1) ∧
        (p.2.flipV = true ↔ IsTurnedOver ts (·.flipVertical) p.1)
  /-- Whatever waits or has become a cube in an expansion has a chain. -/
  isCopied : ∀ {b : Block} {shapeId : String} {n : Nat} {p : Progress α} {memo memo' : ShapeMemo},
    (Progress.run c limits n (.entering b shapeId []) memo).run.value = .ok (p, memo') →
    ∀ job ∈ p.jobs, job.IsCopied c

/-- The laws hold along every chain, and in exact arithmetic moves are summed up exactly. -/
theorem inheritsAlongChains (c : Catalog α) (limits : ExpansionLimits) :
    c.InheritsAlongChains limits ∧ ∀ moves : List (Vec3 Rat), Template.totalMove moves =
      if moves = [] then none else
        some ⟨(moves.map (·.x)).sum, (moves.map (·.y)).sum, (moves.map (·.z)).sum⟩ := by
  have hinherits : ∀ {b : Block} {ts : List (Template α)} {e : Entry α}, e.IsCopied c b ts →
      Template.Inherits ts (e.template.read b).template := by
    intro b ts e h
    have hjoined : Template.IsJoined ts (e.template.read b).template := by
      intro γ field join unit hfield hunit
      rw [← h.isJoined hfield hunit, ← hfield.withoutTexts_eq e.template,
        ← hfield.withoutTexts_eq (e.template.read b).template, Template.withoutTexts_read]
    exact hjoined.inherits
  refine ⟨⟨hinherits, ?_, ?_⟩, Template.totalMove_rat⟩
  · intro b ts e shape cube h hcube host scale registry p hp
    have hlook : cube.look.flipHorizontal = (e.template.read b).template.flipHorizontal ∧
        cube.look.flipVertical = (e.template.read b).template.flipVertical := by
      rw [Reading.cube?] at hcube
      split at hcube
      · cases hcube
        exact ⟨rfl, rfl⟩
      · cases hcube
    rw [Cube.eq_faceUse_of_mem hp]
    simp only [Cube.faceUse, hlook.1, hlook.2]
    exact ⟨isTurnedOver_iff ((hinherits h).flipHorizontal p.1.name),
      isTurnedOver_iff ((hinherits h).flipVertical p.1.name)⟩
  · intro b shapeId n p memo memo' hrun
    exact (keeps_of_run (isKept_isCopied c limits) hrun).jobs

/-- A lid is copied by a panel, which is copied by a door; all three flip the north face, and two
of them move. -/
theorem inheritsAlongChains_of_door :
    let door : Template Rat :=
      { copy := some "panel", size := some ⟨1, 2, 3⟩, translate := some ⟨1, 0, 0⟩,
        flipHorizontal := some (.ofNames ["north", "up"]) }
    let panel : Template Rat :=
      { copy := some "lid", size := some ⟨4, 5, 6⟩, pos := some ⟨0, 1, 0⟩,
        flipHorizontal := some (.ofNames ["north"]) }
    let lid : Template Rat :=
      { translate := some ⟨1 / 2, 0, 1⟩, flipHorizontal := some (.ofNames ["north"]) }
    let c : Catalog Rat :=
      { geometry := ((Table.empty.insert "block" [door]).insert "panel" [panel]).insert "lid"
          [lid] }
    let expanded := (expand c {} { name := "door" } "block" .empty).run.value
    let cubes := (expanded.toOption.map (·.1)).getD []
    c.InheritsAlongChains {} ∧
      (cubes.map (·.size) = [⟨4, 5, 6⟩] ∧ cubes.map (·.pos) = [⟨0, 1, 0⟩] ∧
        cubes.map (·.look.translate) = [some ⟨3 / 2, 0, 1⟩] ∧
        cubes.map (·.look.flipHorizontal) = [some (.ofNames ["north", "up"])]) := by
  intro door panel lid c expanded cubes
  exact ⟨(inheritsAlongChains c {}).1, by decide +kernel⟩

/-- The cubes at the ends of chains turn as their chains declare, from the beginning of the chain
on. -/
structure Catalog.TurnsAlongChains (c : Catalog α) (limits : ExpansionLimits) : Prop where
  rotations : ∀ {b : Block} {ts : List (Template α)} {e : Entry α} {shape : String} {cube : Cube α},
    e.IsCopied c b ts → (e.template.read b).cube? shape = some cube →
    cube.extraRotations ++ cube.rotation.toList = Template.declaredRotations ts.reverse
  angles : ∀ {b : Block} {ts : List (Template α)} {e : Entry α} {shape : String} {cube : Cube α},
    e.IsCopied c b ts → (e.template.read b).cube? shape = some cube →
    (cube.extraRotations ++ cube.rotation.toList).map (·.rot) = ts.reverse.filterMap (·.rot)
  /-- Whatever waits or has become a cube in an expansion has a chain. -/
  isCopied : ∀ {b : Block} {shapeId : String} {n : Nat} {p : Progress α} {memo memo' : ShapeMemo},
    (Progress.run c limits n (.entering b shapeId []) memo).run.value = .ok (p, memo') →
    ∀ job ∈ p.jobs, job.IsCopied c

/-- No rotation is lost, repeated or put in another place by copying. -/
theorem turnsAlongChains {c : Catalog α} (hplain : c.IsPlain) (limits : ExpansionLimits) :
    c.TurnsAlongChains limits := by
  have hrotations : ∀ {b : Block} {ts : List (Template α)} {e : Entry α} {shape : String}
      {cube : Cube α}, e.IsCopied c b ts → (e.template.read b).cube? shape = some cube →
      cube.extraRotations ++ cube.rotation.toList = Template.declaredRotations ts.reverse := by
    intro b ts e shape cube h hcube
    rw [← (h.turns hplain).allRotations_eq]
    rw [Reading.cube?] at hcube
    split at hcube
    · cases hcube
      rfl
    · cases hcube
  refine ⟨hrotations, fun h hcube => ?_, fun hrun => ?_⟩
  · rw [hrotations h hcube, Template.map_rot_declaredRotations]
  · exact (keeps_of_run (isKept_isCopied c limits) hrun).jobs

/-- A door is turned about a pivot that the panel gives which it copies; the lid that the panel
copies turns once more, about the middle of the block. -/
theorem turnsAlongChains_of_door :
    let door : Template Rat :=
      { copy := some "panel", rot := some ⟨0, 90, 0⟩, pivot := some ⟨1, 1, 1⟩ }
    let panel : Template Rat := { copy := some "lid", pivot := some ⟨2, 2, 2⟩ }
    let lid : Template Rat := { rot := some ⟨45, 0, 0⟩ }
    let c : Catalog Rat :=
      { geometry := ((Table.empty.insert "block" [door]).insert "panel" [panel]).insert "lid"
          [lid] }
    let expanded := (expand c {} { name := "door" } "block" .empty).run.value
    let cubes := (expanded.toOption.map (·.1)).getD []
    c.IsPlain ∧ c.TurnsAlongChains {} ∧
      cubes.map (fun cube => cube.extraRotations ++ cube.rotation.toList) =
        [[⟨⟨0, 90, 0⟩, ⟨2, 2, 2⟩⟩, ⟨⟨45, 0, 0⟩, ⟨8, 8, 8⟩⟩]] := by
  intro door panel lid c expanded cubes
  have hplain : c.IsPlain := by
    intro shape templates h
    simp only [c, Table.get?_insert, Table.get?_empty] at h
    split at h
    · cases h
      exact List.forall_mem_singleton.2 rfl
    split at h
    · cases h
      exact List.forall_mem_singleton.2 rfl
    split at h
    · cases h
      exact List.forall_mem_singleton.2 rfl
    · cases h
  exact ⟨hplain, turnsAlongChains hplain {}, by decide +kernel⟩

end

end BlockModels
