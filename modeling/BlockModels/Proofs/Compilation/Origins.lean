import BlockModels.Proofs.Compilation.Joining
import BlockModels.Proofs.Expansion.Origins

/-!
# The blocks that are seen in a run

A face is looked up for the block that its cube carries, or for the block of the palette if the cube
carries none. Which block that is follows from where the cube comes from (`Catalog.TracksOrigins`).
Blocks that are never shown come in nowhere: a palette block of this kind is not expanded, and an
embedded one is not found. So no cube of a run belongs to one, and no reference names one
(`Compilation.HidesIgnored`).
-/

namespace BlockModels

section

variable {α : Type} [Scalar α]

/-- Every cube comes from the block that is expanded or from one that is embedded in it, and the
block that it carries tells which of the two. Only cubes that come from the block itself are merged,
as long as they carry no block; those of embedded blocks are listed as they are. -/
structure Catalog.TracksOrigins (c : Catalog α) : Prop where
  isAssembled : ∀ limits b shapeId, (expand c limits b shapeId).Returns (IsAssembled c b)
  own : ∀ {b owner : Block} {cube : Cube α}, cube.ComesFrom c 0 b owner →
    owner = b ∧ (cube.block = none ∨ ∃ states, cube.block = some (b.withStates states))
  embedded : ∀ {n : Nat} {b owner : Block} {cube : Cube α}, cube.ComesFrom c (n + 1) b owner →
    ∃ outer host named block, b.IsNested c n outer ∧ outer.IsContext host ∧ host.Names named ∧
      owner.StandsFor c named ∧ cube.block = some block ∧ owner.IsContext block

theorem tracksOrigins (c : Catalog α) : c.TracksOrigins where
  isAssembled limits := returns_expandNested_isAssembled limits.maxDepth
  own h := h.block_eq_none_or
  embedded h := by
    obtain ⟨block, hblock, hcontext⟩ := h.exists_block_eq
    cases h.isNested with
    | step hnested hhost hembeds =>
      obtain ⟨named, hnamed, hstands⟩ := hembeds
      exact ⟨_, _, named, block, hnested, hhost, hnamed, hstands, hblock, hcontext⟩

variable (c : Catalog α) (settings : Settings α)

/-- The block whose name is part of a source. -/
def TextureSource.blockName? : TextureSource → Option String
  | .block blockName _ _ => some blockName
  | .terrainKey blockName _ _ => some blockName
  | .path _ => none

/-- The bones of a run are made of cubes whose faces are looked up for blocks that are shown, and so
its references name only such blocks. -/
structure Compilation.HidesIgnored (palette : List Block) (r : Compilation α) : Prop where
  bones : List.Forall₂ (r.HasBone c settings) palette r.bones
  cubes : ∀ b ∈ palette, ∀ {shape : String} {cubes : List (Cube α)},
    (blockCubes c settings b).runFresh.value = .ok (some (shape, cubes)) →
      ∀ cube ∈ cubes, c.isIgnored (cube.block.getD (c.admitted b)).name = false
  references : ∀ ref ∈ r.references, ∀ name, ref.source.blockName? = some name →
    c.ignoredBlocks.contains name = false

variable {c settings} {find : FileLookup} {palette : List Block} {r : Compilation α}

theorem Block.IsContext.name_eq {b b' : Block} (h : b.IsContext b') : b'.name = b.name := by
  cases h <;> rfl

/-- A block that is shown has no cubes of blocks that are not. -/
theorem Cube.ComesFrom.isIgnored_eq {n : Nat} {b owner : Block} {cube : Cube α}
    (h : cube.ComesFrom c n b owner) (hb : c.isIgnored b.name = false) :
    c.isIgnored (cube.block.getD b).name = false := by
  cases n with
  | zero =>
    obtain ⟨-, hblock | ⟨states, hblock⟩⟩ := h.block_eq_none_or <;> rw [hblock] <;> exact hb
  | succ n =>
    obtain ⟨_, _, _, block, -, -, -, hstands, hblock, hcontext⟩ := (tracksOrigins c).embedded h
    rw [hblock, Option.getD_some, hcontext.name_eq]
    exact hstands.isIgnored_eq

omit [Scalar α] in
theorem Catalog.admitted_name (c : Catalog α) (b : Block) : (c.admitted b).name = b.name := by
  unfold admitted
  split <;> rfl

/-- What all results have in common has the result when no shape was asked for before. -/
theorem Expanding.Returns.of_runFresh {β : Type} {x : Expanding β} {P : β → Prop}
    (h : x.Returns P) {v : β} (hv : x.runFresh.value = .ok v) : P v := by
  rw [runFresh, Noted.value_bind] at hv
  split at hv
  next memo' hvalue =>
    cases hv
    exact h .empty _ hvalue
  · cases hv

theorem returns_blockCubes (b : Block) : (blockCubes c settings b).Returns fun made =>
    ∀ shape cubes, made = some (shape, cubes) →
      ∀ cube ∈ cubes, c.isIgnored (cube.block.getD (c.admitted b)).name = false := by
  rw [blockCubes]
  split
  · exact .pure fun _ _ hmade => absurd hmade.symm (Option.some_ne_none _)
  next hshown =>
    have hname : c.isIgnored (c.admitted b).name = false := by
      rwa [c.admitted_name, ← Bool.not_eq_true]
    refine .bind_of_forall fun shape =>
      .bind ((tracksOrigins c).isAssembled _ _ shape) fun cubes hcubes => .pure ?_
    rintro _ _ ⟨⟩ cube hcube
    obtain ⟨n, owner, hfrom⟩ := hcubes.comesFrom cube hcube
    exact hfrom.isIgnored_eq hname

/-- A source names the block for which the face is looked up. -/
theorem Cube.eq_shortName_of_mem {cube : Cube α} {host : Block}
    {own : Face × TextureReference α} (hown : own ∈ cube.ownReferences c host) {name : String}
    (hname : own.2.source.blockName? = some name) : name = (cube.block.getD host).shortName := by
  unfold ownReferences faceReferences at hown
  simp only [Noted.value_bind, Noted.value_pure] at hown
  obtain ⟨rect, -, rfl⟩ := List.mem_map.1 hown
  simp only [faceSource] at hname
  split at hname <;> cases hname <;> rfl

variable [WrittenScalar α]

theorem Compilation.IsStaged.hidesIgnored (h : r.IsStaged c settings find palette) :
    r.HidesIgnored c settings palette where
  bones := h.hasBone
  cubes b _ shape cubes hmade := (returns_blockCubes b).of_runFresh hmade shape cubes rfl
  references ref href name hname := by
    obtain ⟨full, hfull, -⟩ := h.bones
    obtain ⟨p, hp, hreferences, -⟩ := exists_parts_of_compileBones hfull
    rw [hreferences] at href
    obtain ⟨b, hb, hown⟩ := List.mem_flatMap.1 ((Registers.insertAll _).mem_of_mem href)
    cases hmade : p.made b with
    | none =>
      rw [hmade] at hown
      cases hown
    | some made =>
      rw [hmade] at hown
      obtain ⟨cube, hcube, hown⟩ := List.mem_flatMap.1 hown
      obtain ⟨own, hface, rfl⟩ := List.mem_map.1 hown
      rw [Cube.eq_shortName_of_mem hface hname]
      have hvalue := (hp b hb).value_runFresh
      exact (returns_blockCubes b).of_runFresh hvalue _ _ hmade cube hcube

/-- Cubes keep the blocks that they come from, and nothing is seen of blocks that are never
shown. -/
theorem origins_kept (c : Catalog α) : c.TracksOrigins ∧
    ∀ {settings : Settings α} {find : FileLookup} {palette : List Block} {r : Compilation α},
      (compile c settings find palette).run.value = .ok r → r.HidesIgnored c settings palette :=
  ⟨tracksOrigins c, fun h => (compile_eq_ok_iff.1 h).hidesIgnored⟩

/-- A shelf shows a pot that shows a lamp; the shelf and the pot have another cube, and one that is
lit. The shelf's own cubes carry no block or the lit shelf, those of the others the pot and the lamp
without their namespaces. A palette of a lamp and of air has a cube of the lamp. -/
theorem origins_kept_of_shelf :
    let lit : Template Rat := { blockStates := some (Table.empty.insert "lit" (.bool true)) }
    let sheet : Template Rat := { size := some ⟨16, 16, 0⟩ }
    let c : Catalog Rat := {
      shapesByName := Table.empty.insert "lamp" "sheet"
      geometry := (Table.empty.insert defaultShape
        [{ copyBlock := some "entity.item" }, {}, lit]).insert "sheet" [sheet]
      ignoredBlocks := .ofNames ["air"] }
    let pot : Json := .obj [("name", .str "m:pot"), ("states", .obj [("age", .int 1)]),
      ("block_entity_data", .obj [("item", .str "m:lamp")])]
    let shelf : Block := { name := "m:shelf", entity := some [("item", pot)] }
    let palette : List Block := [{ name := "m:lamp" }, { name := "m:air" }]
    let find : FileLookup := fun _ => some (.picture .png (.fill 1 1 ⟨255, 0, 0, 255⟩))
    let expanded := (expand c {} shelf defaultShape .empty).run.value
    let cubes := (expanded.toOption.map (·.1)).getD []
    c.TracksOrigins ∧
      cubes.map (fun cube => cube.block.map fun b => (b.name, b.copied, b.states.entries)) =
        [none, some ("m:shelf", false, [("lit", .bool true)]),
          some ("pot", true, [("age", .int 1)]),
          some ("pot", true, [("age", .int 1), ("lit", .bool true)]), some ("lamp", true, [])] ∧
      ∃ r, (compile c .standard find palette).run.value = .ok r ∧
        r.HidesIgnored c .standard palette ∧ r.bones.map (·.cubes.length) = [1, 0] := by
  intro lit sheet c pot shelf palette find expanded cubes
  have hrun : ((compile c .standard find palette).run.value.toOption.any fun r =>
      decide (r.bones.map (·.cubes.length) = [1, 0])) = true := by
    decide +kernel
  obtain ⟨r, hr, hbones⟩ := (Option.any_eq_true _ _).1 hrun
  have hok := toOption_eq_some_iff.1 hr
  obtain ⟨hcubes, hcompile⟩ := origins_kept c
  exact ⟨hcubes, by decide +kernel, r, hok, hcompile hok, of_decide_eq_true hbones⟩

end

end BlockModels
