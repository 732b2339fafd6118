import BlockModels.Proofs.Expansion.Origins
import BlockModels.Proofs.Expansion.Refinement
import BlockModels.Proofs.Placeholder.Filling

/-!
# The texts of cubes

The path, the texture and the tint of a cube are texts that a template of its chain declares. The
template that was copied last of those that declare a text supplies it; the path that a copy names
counts as declared by the templates that are copied. A text is filled in where it is declared, for
the block and the lists that its template sees there (`Template.scopeAlong`), and once more at each
later copy, for what is seen there (`Template.refill`). So a text is filled in exactly once if its
template copies nothing, or if no placeholder is left in it after the first time
(`TextField.IsFilled.once`), as is so when neither the text nor what is put in brings a mark
(`TextField.IsFilled.unmarked`). What a state of the block puts into a text is read again otherwise.
-/

namespace BlockModels

open Placeholder

section

variable {α : Type}

/-! ## One pass -/

/-- The texts of a template that are filled in. -/
inductive TextField where
  | texturePath
  | terrainTexture
  | tint
  deriving Repr, DecidableEq

/-- The text in a template. -/
def TextField.of (t : Template α) : TextField → Option String
  | texturePath => t.texturePath
  | terrainTexture => t.terrainTexture
  | tint => t.tint

/-- What placeholders are filled in from. -/
structure Scope where
  block : Block
  arrays : Option Arrays

/-- A text that is filled in once. -/
def Scope.fill (scope : Scope) (text : String) : String :=
  (interpolate scope.block text scope.arrays).value

/-- Neither the pieces of a text nor what is put in for them brings a mark. -/
def Scope.IsUnmarked (scope : Scope) (text : String) : Prop :=
  ∀ piece ∈ pieces text.toList, '$' ∉ piece.left scope.block scope.arrays

/-- What a template sees: the block with its states in place, and its lists. -/
def Template.scope (b : Block) (t : Template α) : Scope :=
  ⟨(overrideBlock b t).value.getD b, t.arrays⟩

/-- A text without placeholders is literal. -/
theorem hasPlaceholder_eq_false_iff {cs : List Char} :
    hasPlaceholder cs = false ↔ IsLiteral cs := by
  fun_induction hasPlaceholder cs with
  | case1 rest => exact iff_of_false nofun fun h => h ⟨[], rest, rfl⟩
  | case2 c rest hopen ih =>
    exact ih.trans ⟨fun h => h.cons fun _ hc hrest => hopen _ hc hrest, IsLiteral.tail⟩
  | case3 => exact iff_of_true rfl isLiteral_nil

/-- Filling in leaves a literal text as it is. -/
theorem Scope.fill_of_isLiteral (scope : Scope) {text : String} (h : IsLiteral text.toList) :
    scope.fill text = text := congrArg Noted.value (interpolate_of_isLiteral _ _ h)

/-- A text without placeholders need not be filled in. -/
theorem value_fillText (scope : Scope) (text : Option String) :
    (fillText scope.block scope.arrays text).value = text.map scope.fill := by
  cases text with
  | none => rfl
  | some s =>
    rw [fillText]
    split
    · rfl
    next h =>
      have hliteral := hasPlaceholder_eq_false_iff.1 (Bool.not_eq_true _ ▸ h)
      rw [Option.map_some, scope.fill_of_isLiteral hliteral]
      rfl

/-- Reading a template fills in its texts from what it sees. -/
theorem TextField.of_read (field : TextField) (b : Block) (t : Template α) :
    field.of (t.read b).template = (field.of t).map (t.scope b).fill := by
  cases field <;> exact value_fillText (t.scope b) _

/-! ## Chains -/

/-- The path that is named where a template was copied: by the template that copied it, or by the
shape with which the chain began. -/
def Template.copiedPath (path : Option String) : List (Template α) → Option String
  | [] => path
  | parent :: _ => parent.copy.bind fun target => (splitSpecial target).2

/-- The templates of a chain, with the paths that are named where they were copied. -/
def Template.standing (path : Option String) : List (Template α) → List (Template α)
  | [] => []
  | t :: ts => t.withSpecialPath (copiedPath path ts) :: standing path ts

/-- What the last template of a chain sees: states and lists are joined along the chain. -/
def Template.scopeAlong (b : Block) (ts : List (Template α)) : Scope :=
  let joined : Template α := {
    blockStates := (ts.map (·.blockStates)).foldr joinTables none
    arrays := (ts.map (·.arrays)).foldr joinTables none }
  joined.scope b

/-- A text that comes from an earlier chain is filled in again at each later template. -/
def Template.refill (b : Block) (earlier : List (Template α)) :
    List (Template α) → String → String
  | [], text => text
  | t :: later, text => (scopeAlong b (t :: later ++ earlier)).fill (refill b earlier later text)

/-- The text at the end of a chain. -/
def TextField.filled (b : Block) (field : TextField) : List (Template α) → Option String
  | [] => none
  | t :: ts => ((field.of t).or (filled b field ts)).map (Template.scopeAlong b (t :: ts)).fill

/-- A template supplies a text: of those that declare one it was copied last. -/
structure TextField.Supplies (field : TextField) (later : List (Template α)) (t : Template α)
    (s : String) : Prop where
  own : field.of t = some s
  later : ∀ u ∈ later, field.of u = none

/-- What becomes of a text along a chain. -/
structure TextField.IsFilled (field : TextField) (b : Block) (ts : List (Template α))
    (text : Option String) : Prop where
  undeclared : (∀ t ∈ ts, field.of t = none) → text = none
  /-- The text is filled in where it is declared, and then at each later template. -/
  passes : ∀ {later t earlier s}, ts = later ++ t :: earlier → field.Supplies later t s →
    text = some (Template.refill b (t :: earlier) later
      ((Template.scopeAlong b (t :: earlier)).fill s))
  /-- It is filled in once if nothing was copied since, or no placeholder was left. -/
  once : ∀ {later t earlier s}, ts = later ++ t :: earlier → field.Supplies later t s →
    (later = [] ∨ IsLiteral ((Template.scopeAlong b (t :: earlier)).fill s).toList) →
    text = some ((Template.scopeAlong b (t :: earlier)).fill s)
  unmarked : ∀ {later t earlier s}, ts = later ++ t :: earlier → field.Supplies later t s →
    (Template.scopeAlong b (t :: earlier)).IsUnmarked s →
    text = some ((Template.scopeAlong b (t :: earlier)).fill s)

/-- A literal text stays as it is along every chain. -/
theorem Template.refill_of_isLiteral (b : Block) (earlier later : List (Template α))
    {text : String} (h : IsLiteral text.toList) : refill b earlier later text = text := by
  induction later with
  | nil => rfl
  | cons t later ih => rw [refill, ih, Scope.fill_of_isLiteral _ h]

/-- A text that nothing in a chain declares is not there at its end. -/
theorem TextField.filled_eq_none {field : TextField} (b : Block) {ts : List (Template α)}
    (h : ∀ t ∈ ts, field.of t = none) : field.filled b ts = none := by
  induction ts with
  | nil => rfl
  | cons t ts ih =>
    obtain ⟨ht, hts⟩ := List.forall_mem_cons.1 h
    rw [filled, ht, Option.none_or, ih hts, Option.map_none]

/-- The text that a template supplies is filled in there, and again at each later template. -/
theorem TextField.Supplies.filled_eq {field : TextField} (b : Block)
    {later earlier : List (Template α)} {t : Template α} {s : String}
    (h : field.Supplies later t s) :
    field.filled b (later ++ t :: earlier) = some (Template.refill b (t :: earlier) later
      ((Template.scopeAlong b (t :: earlier)).fill s)) := by
  obtain ⟨hown, hlater⟩ := h
  induction later with
  | nil =>
    rw [List.nil_append, filled, hown]
    rfl
  | cons u later ih =>
    obtain ⟨hu, hlater⟩ := List.forall_mem_cons.1 hlater
    rw [List.cons_append, filled, hu, Option.none_or, ih hlater]
    rfl

/-- What a chain comes to says what becomes of a text along it. -/
theorem TextField.isFilled_filled (field : TextField) (b : Block) (ts : List (Template α)) :
    field.IsFilled b ts (field.filled b ts) where
  undeclared := filled_eq_none b
  passes := by
    rintro later t earlier s rfl hsupplies
    exact hsupplies.filled_eq b
  once := by
    rintro later t earlier s rfl hsupplies honce
    rw [hsupplies.filled_eq b]
    rcases honce with rfl | hliteral
    · rfl
    · rw [Template.refill_of_isLiteral b _ _ hliteral]
  unmarked := by
    rintro later t earlier s rfl hsupplies hunmarked
    have hliteral : IsLiteral ((Template.scopeAlong b (t :: earlier)).fill s).toList :=
      isLiteral_interpolate hunmarked
    rw [hsupplies.filled_eq b, Template.refill_of_isLiteral b _ _ hliteral]

/-! ## Copies -/

/-- Where a template was copied matters for its path only. -/
theorem Template.map_standing {γ : Type} {field : Template α → γ}
    (h : ∀ (path : Option String) (t : Template α), field (t.withSpecialPath path) = field t)
    (path : Option String) (ts : List (Template α)) :
    (standing path ts).map field = ts.map field := by
  induction ts with
  | nil => rfl
  | cons t ts ih => rw [standing, List.map_cons, List.map_cons, ih, h]

/-- Where a template was copied does not matter for what it sees. -/
theorem Template.scopeAlong_standing (b : Block) (path : Option String)
    (ts : List (Template α)) : scopeAlong b (standing path ts) = scopeAlong b ts := by
  rw [scopeAlong, scopeAlong, map_standing (fun _ _ => rfl), map_standing (fun _ _ => rfl)]

variable [Scalar α] {c : Catalog α} {b : Block} {path : Option String}

/-- A template in the work sees what its chain says. -/
theorem Entry.IsCopied.scope_eq {ts : List (Template α)} {e : Entry α} (h : e.IsCopied c b ts) :
    e.template.scope b = Template.scopeAlong b ts := by
  have hnone : ∀ {β : Type} (t : Option (Table β)), Template.joinTables t none = t :=
    fun t => by cases t <;> rfl
  have hstates : Template.Combines (α := α) (·.blockStates) Template.joinTables :=
    ⟨fun _ _ => rfl, fun _ => rfl⟩
  have harrays : Template.Combines (α := α) (·.arrays) Template.joinTables :=
    ⟨fun _ _ => rfl, fun _ => rfl⟩
  rw [Template.scopeAlong, ← h.isJoined hstates hnone, ← h.isJoined harrays hnone]
  rfl

/-- The shape that a template copies is the one that it declares. -/
theorem Entry.IsCopied.copy_eq {ts : List (Template α)} {e : Entry α} (h : e.IsCopied c b ts) :
    ∃ t rest, ts = t :: rest ∧ e.template.copy = t.copy := by
  cases h with
  | root => exact ⟨_, _, rfl, rfl⟩
  | copy => exact ⟨_, _, rfl, rfl⟩

/-- A template in the work, with its chain and the texts that it comes to. -/
structure Entry.IsFilledAlong (c : Catalog α) (b : Block) (path : Option String)
    (ts : List (Template α)) (e : Entry α) : Prop where
  isCopied : e.IsCopied c b ts
  of_read : ∀ field : TextField,
    field.of (e.template.read b).template = field.filled b (Template.standing path ts)

/-- A template of a shape has its own texts, filled in. -/
theorem Entry.IsFilledAlong.root {shape : String} {templates : List (Template α)}
    {t : Template α} (hgeometry : c.geometry.get? shape = some templates) (hmem : t ∈ templates) :
    Entry.IsFilledAlong c b path [t] ⟨t.withSpecialPath path, [shape]⟩ := by
  have hcopied : Entry.IsCopied c b [t] ⟨t.withSpecialPath path, [shape]⟩ :=
    .root path hgeometry hmem
  refine ⟨hcopied, fun field => ?_⟩
  rw [TextField.of_read, hcopied.scope_eq, ← Template.scopeAlong_standing b path]
  exact congrArg _ Option.or_none.symm

/-- A copy takes over the texts that it does not declare, and fills in all of them. -/
theorem Entry.IsFilledAlong.copy {ts templates : List (Template α)} {e : Entry α}
    {target : String} {t : Template α} (h : e.IsFilledAlong c b path ts)
    (hcopy : (e.template.read b).template.copy = some target)
    (hgeometry : c.geometry.get? (splitSpecial target).1 = some templates)
    (hmem : t ∈ templates) :
    Entry.IsFilledAlong c b path (t :: ts)
      ⟨(t.withSpecialPath (splitSpecial target).2).inherit
          { (e.template.read b).template with copy := none },
        e.chain ++ [(splitSpecial target).1]⟩ := by
  have hcopied := Entry.IsCopied.copy h.isCopied hcopy hgeometry hmem
  refine ⟨hcopied, fun field => ?_⟩
  have hpath : Template.copiedPath path ts = (splitSpecial target).2 := by
    obtain ⟨parent, rest, rfl, hparent⟩ := h.isCopied.copy_eq
    have hparent : parent.copy = some target := hparent ▸ hcopy
    rw [Template.copiedPath, hparent, Option.bind_some]
  have hinherit : ∀ own parent : Template α,
      field.of (own.inherit { parent with copy := none }) = (field.of own).or (field.of parent) :=
    fun own parent => by cases field <;> rfl
  rw [TextField.of_read, hcopied.scope_eq, hinherit, h.of_read,
    ← Template.scopeAlong_standing b path, Template.standing, hpath]
  rfl

/-! ## Leaves -/

/-- Whatever stands in the tree of a template has a chain. -/
theorem exists_of_mem_leavesAt {level links : Nat} {ts : List (Template α)} {e : Entry α}
    {r : Reading α} (he : e.IsFilledAlong c b path ts)
    (hr : r ∈ CopyTree.leavesAt level (copyTree c b links e)) :
    ∃ ts' e', Entry.IsFilledAlong c b path ts' e' ∧ r = e'.template.read b := by
  induction level generalizing links ts e with
  | zero =>
    have hroot : r ∈ if (e.template.read b).isLeaf then [e.template.read b] else [] := by
      cases links <;> exact hr
    split at hroot
    · exact ⟨ts, e, he, List.mem_singleton.1 hroot⟩
    · cases hroot
  | succ level ih =>
    cases links with
    | zero =>
      rw [copyTree, CopyTree.leavesAt, List.flatMap_nil, ite_self] at hr
      cases hr
    | succ links =>
      rw [copyTree, CopyTree.leavesAt] at hr
      split at hr
      case isFalse => cases hr
      obtain ⟨child, hchild, hr⟩ := List.mem_flatMap.1 hr
      obtain ⟨e', he', rfl⟩ := List.mem_map.1 hchild
      simp only [copiedEntries] at he'
      split at he'
      · cases he'
      next target hcopy =>
        split at he'
        · cases he'
        · obtain ⟨t, ht, rfl⟩ := List.mem_map.1 he'
          cases hgeometry : c.geometry.get? (splitSpecial target).1 with
          | none =>
            rw [hgeometry] at ht
            cases ht
          | some templates =>
            rw [hgeometry] at ht
            exact ih (he.copy hcopy hgeometry ht) hr

/-- The leaves of a shape have chains that begin in it. -/
theorem exists_of_mem_leavesOf {maxDepth : Nat} {shape : String} {templates : List (Template α)}
    {r : Reading α} (hgeometry : c.geometry.get? shape = some templates)
    (hr : r ∈ leavesOf c maxDepth b (rootEntries shape path templates)) :
    ∃ ts e, Entry.IsFilledAlong c b path ts e ∧ r = e.template.read b := by
  rw [leavesOf, levelOrder] at hr
  obtain ⟨level, -, hr⟩ := List.mem_flatMap.1 hr
  obtain ⟨tree, htree, hr⟩ := List.mem_flatMap.1 hr
  obtain ⟨e, he, rfl⟩ := List.mem_map.1 htree
  obtain ⟨t, ht, rfl⟩ := List.mem_map.1 he
  exact exists_of_mem_leavesAt (.root hgeometry ht) hr

/-! ## Cubes -/

/-- The texts of a cube are those of its chain, filled in for the block from which it comes. A chain
of an embedded block begins with the shape of that block. What was merged has no texts. -/
inductive Cube.IsWritten (c : Catalog α) : Block → String → Cube α → Prop
  | decided {b : Block} {shapeId shape : String} {ts : List (Template α)} {e : Entry α}
      {cube : Cube α} (hentry : e.IsCopied c b ts)
      (hcube : (e.template.read b).cube? shape = some cube)
      (htexts : ∀ field : TextField, field.IsFilled b
        (Template.standing (splitSpecial shapeId).2 ts) (field.of cube.look)) :
      IsWritten c b shapeId cube
  | merged {b : Block} {shapeId : String} {bare : List (Cube α)} {cuboid : Cuboid α}
      (shape : String) (hbare : ∀ cube ∈ bare, cube.isBare = true)
      (hown : ∀ cube ∈ bare, IsWritten c b shapeId cube)
      (hcuboid : cuboid ∈ mergeCuboids (bare.map Cube.toCuboid)) :
      IsWritten c b shapeId (Cube.ofCuboid shape cuboid)
  | embedded {b host copied : Block} {shapeId : String} {cube : Cube α} (offset : Vec3 α)
      (hhost : b.IsContext host) (hembeds : host.Embeds c copied)
      (hcube : IsWritten c copied (c.shapeOf (stripNamespace copied.name)) cube) :
      IsWritten c b shapeId (cube.embeddedIn copied offset)

/-- The cube of an entry has the texts that its chain comes to. -/
theorem Entry.IsFilledAlong.isWritten {shapeId shape : String} {ts : List (Template α)}
    {e : Entry α} {cube : Cube α} (h : e.IsFilledAlong c b (splitSpecial shapeId).2 ts)
    (hcube : (e.template.read b).cube? shape = some cube) : cube.IsWritten c b shapeId := by
  refine .decided h.isCopied hcube fun field => ?_
  have hlook : field.of cube.look = field.of (e.template.read b).template := by
    rw [Reading.eq_ofTemplate_of_cube? hcube]
    cases field <;> rfl
  rw [hlook, h.of_read]
  exact field.isFilled_filled b _

/-- What is embedded is expanded to cubes whose texts are those of their chains. -/
def EmbedsWritten (c : Catalog α) (embed : Option (Block → String → List (Cube α))) : Prop :=
  ∀ f ∈ embed, ∀ b shapeId, ∀ cube ∈ f b shapeId, cube.IsWritten c b shapeId

variable {embed : Option (Block → String → List (Cube α))}

/-- The cubes that a template embeds have the texts of their own chains. -/
theorem isWritten_of_mem_embedded (hembed : EmbedsWritten c embed) (t : Template α)
    {shapeId : String} {cube : Cube α} (h : cube ∈ (t.read b).embedded c embed b) :
    cube.IsWritten c b shapeId := by
  unfold Reading.embedded at h
  split at h
  next directive f _ =>
    split at h
    · cases h
    next found hfound =>
      obtain ⟨inner, hinner, rfl⟩ := List.mem_map.1 h
      have hinner := hembed f rfl _ _ inner hinner
      exact .embedded _ (isContext_overrideBlock b t) (embeds_of_findEmbedded hfound) hinner
  · cases h

/-- The cubes of a shape have the texts of their chains, if embedded ones do. -/
theorem isWritten_of_mem_cubesWith (hembed : EmbedsWritten c embed) {maxDepth : Nat}
    {shapeId : String} {cube : Cube α} (h : cube ∈ cubesWith c maxDepth embed b shapeId) :
    cube.IsWritten c b shapeId := by
  rw [cubesWith] at h
  split at h
  · cases h
  next shape templates hgeometry =>
    have hknown := shapeGeometry_eq hgeometry
    have hown : ∀ cube ∈ (leavesOf c maxDepth b
        (rootEntries shape (splitSpecial shapeId).2 templates)).filterMap (Reading.cube? shape),
        cube.IsWritten c b shapeId := by
      intro cube hcube
      obtain ⟨r, hr, hcube⟩ := List.mem_filterMap.1 hcube
      obtain ⟨ts, e, he, rfl⟩ := exists_of_mem_leavesOf hknown hr
      exact he.isWritten hcube
    rw [List.mem_append, List.mem_append] at h
    obtain (h | h) | h := h
    · obtain ⟨cuboid, hcuboid, rfl⟩ := List.mem_map.1 h
      refine .merged shape (fun cube hbare => ?_) (fun cube hbare => ?_) hcuboid
      · exact (List.mem_filter.1 hbare).2
      · exact hown cube (List.mem_filter.1 hbare).1
    · exact hown cube (List.mem_filter.1 h).1
    · obtain ⟨r, hr, hcube⟩ := List.mem_flatMap.1 h
      obtain ⟨ts, e, -, rfl⟩ := exists_of_mem_leavesOf hknown hr
      exact isWritten_of_mem_embedded hembed e.template hcube

/-- The cubes of a shape have the texts of their chains, by induction on the nestings. -/
theorem isWritten_of_mem_cubesOf {maxDepth levels : Nat} {shapeId : String} {cube : Cube α}
    (h : cube ∈ cubesOf c maxDepth levels b shapeId) : cube.IsWritten c b shapeId := by
  induction levels generalizing b shapeId cube with
  | zero =>
    have hnone : EmbedsWritten c none := fun _ h => absurd h (Option.not_mem_none _)
    exact isWritten_of_mem_cubesWith hnone h
  | succ levels ih =>
    refine isWritten_of_mem_cubesWith ?_ h
    rintro _ ⟨⟩ b shapeId cube hcube
    exact ih hcube

/-- The texts of every cube are those that its chain declares, each filled in where it is declared
and once more at every later copy. -/
theorem isWritten_of_expand {limits : ExpansionLimits} {memo memo' : ShapeMemo}
    (hmemo : memo.IsFaithful c) {shapeId : String} {cubes : List (Cube α)}
    (h : (expand c limits b shapeId memo).run.value = .ok (cubes, memo')) :
    ∀ cube ∈ cubes, cube.IsWritten c b shapeId := by
  rw [eq_cubesOf_of_expand hmemo h]
  exact fun cube hcube => isWritten_of_mem_cubesOf hcube

/-- A panel that a sign copies inherits the texts of the sign. The path of the sign has a state in
it whose value looks like a placeholder: the sign's own scope leaves it there, and the panel's fills
it in. The tint is red after the first time. -/
theorem isWritten_of_expand_of_sign :
    let sign : Template Rat :=
      { copy := some "panel", texturePath := some "t/$\x7b#block_states.x\x7d",
        tint := some "$\x7b#block_states.z\x7d" }
    let c : Catalog Rat :=
      { geometry := (Table.empty.insert "block" [sign]).insert "panel" [{}] }
    let b : Block :=
      { name := "sign", states := ((Table.empty.insert "x" (.str "$\x7b#block_states.y\x7d")).insert
          "y" (.str "secret")).insert "z" (.str "red") }
    let expanded := (expand c {} b "block" .empty).run.value
    ∃ cubes memo', ShapeMemo.IsFaithful c .empty ∧ expanded = .ok (cubes, memo') ∧
      (∀ cube ∈ cubes, cube.IsWritten c b "block") ∧
      (cubes.map (·.look.texturePath) = [some "t/secret"] ∧
        cubes.map (·.look.tint) = [some "red"]) ∧
      (Template.scopeAlong b [sign]).fill "t/$\x7b#block_states.x\x7d" =
        "t/$\x7b#block_states.y\x7d" := by
  intro sign c b expanded
  have hrun : (expanded.toOption.any fun made =>
      decide (made.1.map (·.look.texturePath) = [some "t/secret"] ∧
        made.1.map (·.look.tint) = [some "red"])) = true := by
    decide +kernel
  cases hok : expanded with
  | error e =>
    rw [hok] at hrun
    cases hrun
  | ok made =>
    rw [hok] at hrun
    have htexts := of_decide_eq_true hrun
    have hwritten := isWritten_of_expand ShapeMemo.isFaithful_empty hok
    exact ⟨_, _, ShapeMemo.isFaithful_empty, rfl, hwritten, htexts, by decide +kernel⟩

end

end BlockModels
