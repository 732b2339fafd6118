import BlockModels.Proofs.Expansion.CopyChain

/-!
# Where cubes come from

The cubes of a block are those of its own shape, some of them merged, and those of the blocks that
are embedded in it, which have cubes and embedded blocks of their own. Every cube comes out of the
expansion of one of these blocks, its owner, so many levels of embedding below the block that is
expanded (`Cube.ComesFrom`, `returns_expand_isAssembled`). The block that a cube carries tells its
owner: the cubes of the block that is expanded carry no block, or this block with states in place of
its own, and all others carry their owner, or their owner with such states
(`Cube.ComesFrom.block_eq_none_or`, `Cube.ComesFrom.exists_block_eq`).
-/

namespace BlockModels

/-! ## Embedded blocks -/

/-- The block itself, or with states that a template puts in place of its own. -/
inductive Block.IsContext (b : Block) : Block → Prop
  | same : IsContext b b
  | overridden (states : Table StateValue) : IsContext b (b.withStates states)

/-- The block that a property of the entity data is about: one that is known by its name only, or
one with states and data. -/
def namedBlock? : Json → Option Block
  | .str name => some { name }
  | .obj members => Block.ofJson? (.obj members)
  | _ => none

/-- A property of the host's entity data is about the block. -/
def Block.Names (host named : Block) : Prop :=
  ∃ property value, host.entityValue? property = some value ∧ namedBlock? value = some named

/-- A block that is embedded stands for the one that is named: without its namespace, with the same
states, marked, and with its entity data unless those of its name are not to be looked at. It is
none of those that are never shown. -/
structure Block.StandsFor {α : Type} (c : Catalog α) (copied named : Block) : Prop where
  name_eq : named.name.toList.count ':' ≤ 1 → copied.name = stripNamespace named.name
  states_eq : copied.states = named.states
  entity_eq : copied.entity =
    if c.ignoredEntities.contains copied.name then none else named.entity
  copied_eq : copied.copied = true
  isIgnored_eq : c.isIgnored copied.name = false

/-- The host names a block for which the other one stands. -/
def Block.Embeds {α : Type} (c : Catalog α) (host copied : Block) : Prop :=
  ∃ named, host.Names named ∧ copied.StandsFor c named

/-- The owner is embedded in the block, so many levels deep. -/
inductive Block.IsNested {α : Type} (c : Catalog α) : Nat → Block → Block → Prop
  | same (b : Block) : IsNested c 0 b b
  | step {n : Nat} {b outer host owner : Block} (h : IsNested c n b outer)
      (hhost : outer.IsContext host) (hembeds : host.Embeds c owner) : IsNested c (n + 1) b owner

/-- A block that is embedded in another one is a level deeper there. -/
theorem Block.IsNested.cons {α : Type} {c : Catalog α} {n : Nat} {b host copied owner : Block}
    (hhost : b.IsContext host) (hembeds : host.Embeds c copied) (h : copied.IsNested c n owner) :
    b.IsNested c (n + 1) owner := by
  induction h with
  | same copied => exact .step (.same b) hhost hembeds
  | step _ hhost' hembeds' ih => exact .step (ih hembeds) hhost' hembeds'

/-- A name without a colon has no namespace. -/
theorem stripNamespace_of_notMem {name : String} (h : ':' ∉ name.toList) :
    stripNamespace name = name := by
  have hnil : name.toList.dropWhile (· != ':') = [] :=
    List.dropWhile_eq_nil_iff.2 fun ch hch => bne_iff_ne.2 fun heq => h (heq ▸ hch)
  rw [stripNamespace, hnil]

/-- The namespace ends at the first colon. -/
theorem stripNamespace_of_append {name : String} {space rest : List Char}
    (h : name.toList = space ++ ':' :: rest) (hspace : ':' ∉ space) :
    stripNamespace name = String.ofList rest := by
  have hbefore : ∀ ch ∈ space, (ch != ':') = true := fun ch hch =>
    bne_iff_ne.2 fun heq => hspace (heq ▸ hch)
  have hdrop : name.toList.dropWhile (· != ':') = ':' :: rest := by
    rw [h, List.dropWhile_append_of_pos hbefore]
    rfl
  simp only [stripNamespace, hdrop]

/-- A name with one colon at most has no second namespace. -/
theorem stripNamespace_stripNamespace {name : String} (h : name.toList.count ':' ≤ 1) :
    stripNamespace (stripNamespace name) = stripNamespace name := by
  by_cases hmem : ':' ∈ name.toList
  · obtain ⟨space, rest, hname, hspace⟩ := List.eq_append_cons_of_mem hmem
    rw [stripNamespace_of_append hname hspace]
    refine stripNamespace_of_notMem fun hrest => ?_
    rw [String.toList_ofList] at hrest
    rw [hname, List.count_append, List.count_cons_self] at h
    have hpos := List.count_pos_iff.2 hrest
    omega
  · rw [stripNamespace_of_notMem hmem, stripNamespace_of_notMem hmem]

variable {α : Type} {c : Catalog α}

/-- A block in entity data has the states and the entity data that are named there, and the name
without its namespace. -/
theorem exists_named_of_embeddedBlock? {value : Json} {found : Block}
    (h : embeddedBlock? value = some found) :
    ∃ named, namedBlock? value = some named ∧ found.states = named.states ∧
      found.entity = named.entity ∧
        (named.name.toList.count ':' ≤ 1 → found.name = stripNamespace named.name) := by
  obtain ⟨read, hread, rfl⟩ := Option.map_eq_some_iff.1 h
  cases value with
  | str name =>
    cases hread
    exact ⟨_, rfl, rfl, rfl, fun hcount => stripNamespace_stripNamespace hcount⟩
  | obj members => exact ⟨read, hread, rfl, rfl, fun _ => rfl⟩
  | _ => cases hread

/-- Whatever is found in the entity data stands for a block that is named there. -/
theorem embeds_of_findEmbedded {host found : Block} {directive : String}
    (h : (findEmbedded c host directive).value = some found) :
    host.Embeds c (c.embedded found) := by
  rw [findEmbedded] at h
  split at h
  · cases h
  next property hproperty =>
    split at h
    · cases h
    next found' hfound =>
      obtain ⟨value, hvalue, hread⟩ := Option.bind_eq_some_iff.1 hfound
      obtain ⟨named, hnamed, hstates, hentity, hname⟩ := exists_named_of_embeddedBlock? hread
      rw [Noted.value_pure, Option.ite_none_left_eq_some, Option.some.injEq] at h
      obtain ⟨hignored, rfl⟩ := h
      refine ⟨named, ⟨_, value, hvalue, hnamed⟩, ?_⟩
      exact {
        name_eq := hname
        states_eq := hstates
        entity_eq := hentity ▸ rfl
        copied_eq := rfl
        isIgnored_eq := Bool.not_eq_true _ ▸ hignored }

/-- The states of a template make a block of their own, or none if there are none. -/
theorem overrideBlock_eq (b : Block) (t : Template α) : (overrideBlock b t).value = none ∨
    ∃ states, (overrideBlock b t).value = some (b.withStates states) := by
  rw [overrideBlock]
  split
  · exact .inl rfl
  · exact .inr ⟨_, rfl⟩

/-- A block with the states of a template stands for the block. -/
theorem isContext_overrideBlock (b : Block) (t : Template α) :
    b.IsContext ((overrideBlock b t).value.getD b) := by
  obtain h | ⟨states, h⟩ := overrideBlock_eq b t <;> rw [h]
  · exact .same
  · exact .overridden states

/-! ## Cubes -/

variable [Scalar α]

/-- A cube of a block comes out of the expansion of its owner, which is embedded so many levels deep
in the block. Of the cubes of the block itself, those that have only a place and a size may have
been merged. -/
inductive Cube.ComesFrom (c : Catalog α) : Nat → Block → Block → Cube α → Prop
  | decided {b : Block} {shape : String} {ts : List (Template α)} {e : Entry α} {cube : Cube α}
      (hentry : e.IsCopied c b ts) (hcube : (e.template.read b).cube? shape = some cube) :
      ComesFrom c 0 b b cube
  | merged {b : Block} {bare : List (Cube α)} {cuboid : Cuboid α} (shape : String)
      (hbare : ∀ cube ∈ bare, cube.isBare = true)
      (hown : ∀ cube ∈ bare, ComesFrom c 0 b b cube)
      (hcuboid : cuboid ∈ mergeCuboids (bare.map Cube.toCuboid)) :
      ComesFrom c 0 b b (Cube.ofCuboid shape cuboid)
  | embedded {n : Nat} {b host copied owner : Block} {cube : Cube α} (offset : Vec3 α)
      (hhost : b.IsContext host) (hembeds : host.Embeds c copied)
      (hcube : ComesFrom c n copied owner cube) :
      ComesFrom c (n + 1) b owner (cube.embeddedIn copied offset)

namespace Cube.ComesFrom

variable {n : Nat} {b owner : Block} {cube : Cube α}

/-- The owner of a cube is embedded as deep as the cube says. -/
theorem isNested (h : cube.ComesFrom c n b owner) : b.IsNested c n owner := by
  induction h with
  | decided => exact .same _
  | merged => exact .same _
  | embedded _ hhost hembeds _ ih => exact .cons hhost hembeds ih

/-- A cube of the block itself carries no block, or this one with states of a template. -/
theorem block_eq_none_or (h : cube.ComesFrom c 0 b owner) :
    owner = b ∧ (cube.block = none ∨ ∃ states, cube.block = some (b.withStates states)) := by
  cases h with
  | decided hentry hcube =>
    rw [Reading.eq_ofTemplate_of_cube? hcube]
    exact ⟨rfl, overrideBlock_eq _ _⟩
  | merged => exact ⟨rfl, .inl rfl⟩

/-- A cube of an embedded block carries this block, maybe with states of a template. -/
theorem exists_block_eq (h : cube.ComesFrom c (n + 1) b owner) :
    ∃ block, cube.block = some block ∧ owner.IsContext block := by
  induction n generalizing b cube with
  | zero =>
    cases h with
    | @embedded _ _ _ _ _ inner _ _ _ hinner =>
      obtain ⟨rfl, hblock | ⟨states, hblock⟩⟩ := hinner.block_eq_none_or
      · exact ⟨owner, by rw [embeddedIn, hblock]; rfl, .same⟩
      · exact ⟨_, by rw [embeddedIn, hblock]; rfl, .overridden states⟩
  | succ n ih =>
    cases h with
    | embedded _ _ _ hinner =>
      obtain ⟨block, hblock, hcontext⟩ := ih hinner
      exact ⟨block, by rw [embeddedIn, hblock]; rfl, hcontext⟩

end Cube.ComesFrom

/-- The cubes of a block, put together from its own and from those of embedded blocks. -/
structure IsAssembled (c : Catalog α) (b : Block) (cubes : List (Cube α)) : Prop where
  exists_yield : ∃ (shape : String) (y : Yield α), cubes = assemble shape y ∧
    (∀ cube ∈ y.cubes, cube.ComesFrom c 0 b b) ∧
      ∀ cube ∈ y.embedded, ∃ n owner, cube.ComesFrom c (n + 1) b owner
  comesFrom : ∀ cube ∈ cubes, ∃ n owner, cube.ComesFrom c n b owner

/-- Merging keeps where cubes come from. -/
theorem isAssembled_assemble {b : Block} (shape : String) {y : Yield α}
    (hcubes : ∀ cube ∈ y.cubes, cube.ComesFrom c 0 b b)
    (hembedded : ∀ cube ∈ y.embedded, ∃ n owner, cube.ComesFrom c (n + 1) b owner) :
    IsAssembled c b (assemble shape y) where
  exists_yield := ⟨shape, y, rfl, hcubes, hembedded⟩
  comesFrom cube hcube := by
    rw [assemble, List.mem_append, List.mem_append] at hcube
    obtain (hcube | hcube) | hcube := hcube
    · obtain ⟨cuboid, hcuboid, rfl⟩ := List.mem_map.1 hcube
      refine ⟨0, b, .merged shape (fun cube hbare => ?_) (fun cube hbare => ?_) hcuboid⟩
      · exact (List.mem_filter.1 hbare).2
      · exact hcubes cube (List.mem_filter.1 hbare).1
    · exact ⟨0, b, hcubes cube (List.mem_filter.1 hcube).1⟩
    · obtain ⟨n, owner, h⟩ := hembedded cube hcube
      exact ⟨n + 1, owner, h⟩

/-! ## Expansions -/

/-- What templates of a block yield: cubes of the block, cubes of embedded blocks, and templates
that are copied for it. -/
structure Yield.IsFrom (c : Catalog α) (b : Block) (y : Yield α) : Prop where
  cubes : ∀ cube ∈ y.cubes, cube.ComesFrom c 0 b b
  embedded : ∀ cube ∈ y.embedded, ∃ n owner, cube.ComesFrom c (n + 1) b owner
  next : ∀ e ∈ y.next, ∃ ts, e.IsCopied c b ts

namespace Yield.IsFrom

variable {b : Block} {y z : Yield α}

/-- To yield nothing comes from every block. -/
theorem empty : Yield.IsFrom c b ({} : Yield α) :=
  ⟨List.forall_mem_nil _, List.forall_mem_nil _, List.forall_mem_nil _⟩

/-- What comes from a block does so together. -/
theorem append (hy : y.IsFrom c b) (hz : z.IsFrom c b) : (y.append z).IsFrom c b where
  cubes := List.forall_mem_append.2 ⟨hy.cubes, hz.cubes⟩
  embedded := List.forall_mem_append.2 ⟨hy.embedded, hz.embedded⟩
  next := List.forall_mem_append.2 ⟨hy.next, hz.next⟩

/-- What comes from a block does so without the templates that are left. -/
theorem withoutNext (hy : y.IsFrom c b) : { y with next := [] }.IsFrom c b :=
  ⟨hy.cubes, hy.embedded, List.forall_mem_nil _⟩

end Yield.IsFrom

variable {limits : ExpansionLimits} {expander : Option (BlockExpander α)}

/-- What is embedded is found in the block, maybe with states of the template. -/
theorem returns_decideEntry_embeds (b : Block) (shape : String) (e : Entry α) :
    (decideEntry c limits b shape e).Returns fun d => ∀ name found offset,
      d = .embeds name found offset →
        ∃ host, b.IsContext host ∧ host.Embeds c (c.embedded found) := by
  refine .bind (P := (· = (overrideBlock b e.template).value)) (.liftM rfl) ?_
  rintro _ rfl
  refine .bind_of_forall fun holds => ?_
  split
  · exact .pure nofun
  refine .bind_of_forall fun t => ?_
  split
  · exact .bind_of_forall fun _ => .pure nofun
  split
  next directive _ =>
    refine .bind (P := fun found => ∀ block, found = some block →
      Block.Embeds c ((overrideBlock b e.template).value.getD b) (c.embedded block))
      (.liftM fun _ => embeds_of_findEmbedded) fun found hfound => .pure ?_
    cases found with
    | none => exact nofun
    | some block =>
      rintro _ _ _ ⟨⟩
      exact ⟨_, isContext_overrideBlock b e.template, hfound block rfl⟩
  · exact .pure nofun

/-- Embedded blocks are expanded to cubes that come from them. -/
def ExpandsOwn (c : Catalog α) (expander : Option (BlockExpander α)) : Prop :=
  ∀ expand ∈ expander, ∀ b shapeId, (expand b shapeId).Returns (IsAssembled c b)

/-- What an entry yields comes from the block. -/
theorem returns_expandEntry_isFrom (h : ExpandsOwn c expander) (b : Block) (shape : String)
    {ts : List (Template α)} {e : Entry α} (he : e.IsCopied c b ts) :
    (expandEntry c limits expander b shape e).Returns (·.IsFrom c b) := by
  refine .bind (.ofDeciding fun d hd => And.intro (returns_decideEntry_isCopied shape he d hd)
    (returns_decideEntry_embeds b shape e d hd)) ?_
  rintro d ⟨⟨hnext, hcubes⟩, hembeds⟩
  cases d with
  | dropped => exact .pure .empty
  | cube cube =>
    refine .pure ⟨fun cube' hcube' => ?_, List.forall_mem_nil _, List.forall_mem_nil _⟩
    exact .decided he (hcubes cube' hcube')
  | copies next =>
    refine .pure ⟨List.forall_mem_nil _, List.forall_mem_nil _, fun e' he' => ?_⟩
    obtain ⟨t, ht⟩ := hnext e' he'
    exact ⟨t :: ts, ht⟩
  | embeds name found offset =>
    obtain ⟨host, hhost, hembeds⟩ := hembeds _ _ _ rfl
    cases expander with
    | none => exact .ofDeciding (.refuse .empty)
    | some expand =>
      refine .bind_of_forall fun shape => .bind (h expand rfl _ shape) fun cubes hcubes => ?_
      refine .pure ⟨List.forall_mem_nil _, fun cube hcube => ?_, List.forall_mem_nil _⟩
      obtain ⟨inner, hinner, rfl⟩ := List.mem_map.1 hcube
      obtain ⟨n, owner, hfrom⟩ := hcubes.comesFrom inner hinner
      exact ⟨n, owner, .embedded offset hhost hembeds hfrom⟩

/-- What a level yields comes from the block, by induction on its entries. -/
theorem returns_expandLevel_isFrom (h : ExpandsOwn c expander) (b : Block) (shape : String)
    {entries : List (Entry α)} (hentries : ∀ e ∈ entries, ∃ ts, e.IsCopied c b ts) :
    (expandLevel c limits expander b shape entries).Returns (·.IsFrom c b) := by
  induction entries with
  | nil => exact .pure .empty
  | cons e rest ih =>
    obtain ⟨⟨ts, he⟩, hrest⟩ := List.forall_mem_cons.1 hentries
    refine .bind (returns_expandEntry_isFrom h b shape he) fun first hfirst => ?_
    exact .bind (ih hrest) fun others hothers => .pure (hfirst.append hothers)

/-- What all levels yield comes from the block, by induction on the links that are left. -/
theorem returns_expandLevels_isFrom (h : ExpandsOwn c expander) (b : Block) (shape : String)
    (links : Nat) {entries : List (Entry α)} (hentries : ∀ e ∈ entries, ∃ ts, e.IsCopied c b ts) :
    (expandLevels c limits expander b shape links entries).Returns (·.IsFrom c b) := by
  induction links generalizing entries with
  | zero => exact returns_expandLevel_isFrom h b shape hentries
  | succ links ih =>
    refine .bind (returns_expandLevel_isFrom h b shape hentries) fun here hhere => ?_
    split
    · exact .pure hhere
    · exact .bind (ih hhere.next) fun below hbelow => .pure (hhere.withoutNext.append hbelow)

/-- The cubes of a block come from it and from what is embedded, if embedded blocks are expanded
so. -/
theorem returns_expandWith_isAssembled (h : ExpandsOwn c expander) (b : Block)
    (shapeId : String) : (expandWith c limits expander b shapeId).Returns (IsAssembled c b) := by
  refine .bind (P := fun geometry => ∀ found, geometry = some found →
    c.geometry.get? found.1 = some found.2) (.ofNoted fun _ => shapeGeometry_eq) ?_
  intro geometry hgeometry
  cases geometry with
  | none =>
    exact .pure (isAssembled_assemble (y := {}) "" (List.forall_mem_nil _) (List.forall_mem_nil _))
  | some geometry =>
    have hroots : ∀ e ∈ rootEntries geometry.1 (splitSpecial shapeId).2 geometry.2,
        ∃ ts, e.IsCopied c b ts := by
      intro e he
      obtain ⟨t, ht, rfl⟩ := List.mem_map.1 he
      exact ⟨[t], .root _ (hgeometry geometry rfl) ht⟩
    refine .bind (returns_expandLevels_isFrom h b geometry.1 limits.maxDepth hroots) ?_
    exact fun y hy => .pure (isAssembled_assemble geometry.1 hy.cubes hy.embedded)

/-- Every expansion puts its cubes together from those of the block and of embedded blocks. -/
theorem returns_expandNested_isAssembled (levels : Nat) (b : Block) (shapeId : String) :
    (expandNested c limits levels b shapeId).Returns (IsAssembled c b) := by
  induction levels generalizing b shapeId with
  | zero =>
    have hnone : ExpandsOwn c none := fun _ h => absurd h (Option.not_mem_none _)
    exact returns_expandWith_isAssembled hnone b shapeId
  | succ levels ih =>
    refine returns_expandWith_isAssembled ?_ b shapeId
    rintro _ ⟨⟩
    exact ih

end BlockModels
