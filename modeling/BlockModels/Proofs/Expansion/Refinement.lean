import BlockModels.Proofs.Expansion.CopyTree
import BlockModels.Proofs.Expansion.WorkList

/-!
# The work list does what copying means

A run that is not strict lists, level by level, the leaves of the trees of a shape: what a template
comes to is read off its tree (`settles_expandEntry`), the templates that a level leaves for the
next are the children in the trees (`leavesAt_succ_copyTree`), and so by induction on the links that
remain all levels together are the leaves in level order (`settles_expandLevels`). Shapes are
remembered on the way; that makes no difference as long as what is remembered is what the rules say
(`ShapeMemo.IsFaithful`). A strict run that has a result has the same one (`eq_cubesOf_of_expand`).
-/

namespace BlockModels

/-! ## Results -/

namespace Deciding

variable {β γ : Type}

/-- A decision that begins by taking notes has the value of what follows. -/
theorem value_liftM_bind (x : Noted β) (f : β → Deciding γ) :
    (liftM x >>= f).run.value = (f x.value).run.value := rfl

/-- A lenient run has the stand-in for what it refuses. -/
theorem value_refuse {limits : ExpansionLimits} (h : limits.strict = false) {failure : Failure}
    {kind : DiagnosticKind} {message : String} (standIn : β) :
    (refuse limits failure kind message standIn).run.value = .ok standIn := by
  rw [refuse, h]
  rfl

end Deciding

section

variable {α : Type} {c : Catalog α}

/-- The shapes that are remembered are those that the rules give. -/
def ShapeMemo.IsFaithful (c : Catalog α) (memo : ShapeMemo) : Prop :=
  ∀ name shape, memo.get? name = some shape → shape = c.shapeOf name

/-- To remember nothing is faithful. -/
theorem ShapeMemo.isFaithful_empty : ShapeMemo.IsFaithful c .empty := nofun

/-- To remember the shape of a name keeps what is remembered faithful. -/
theorem ShapeMemo.IsFaithful.insert {memo : ShapeMemo} (h : memo.IsFaithful c) (name : String) :
    ShapeMemo.IsFaithful c (memo.insert name (c.shapeOf name)) := by
  intro name' shape hget
  rw [Table.get?_insert] at hget
  split at hget
  next heq =>
    cases hget
    rw [heq]
  · exact h name' shape hget

namespace Expanding

variable {β γ : Type}

/-- With faithful memory there is this result, and the memory stays faithful. -/
def Settles (c : Catalog α) (x : Expanding β) (v : β) : Prop :=
  ∀ memo : ShapeMemo, memo.IsFaithful c →
    ∃ memo' : ShapeMemo, (x memo).run.value = .ok (v, memo') ∧ memo'.IsFaithful c

/-- A value settles. -/
theorem Settles.pure (v : β) : Settles c (Pure.pure v) v := fun memo h => ⟨memo, rfl, h⟩

/-- Computations after each other settle on the value of the last. -/
theorem Settles.bind {x : Expanding β} {f : β → Expanding γ} {v : β} {w : γ}
    (hx : Settles c x v) (hf : Settles c (f v) w) : Settles c (x >>= f) w := by
  intro memo h
  obtain ⟨memo', hvalue, h'⟩ := hx memo h
  obtain ⟨memo'', hvalue', h''⟩ := hf memo' h'
  refine ⟨memo'', ?_, h''⟩
  rw [bind_apply, Deciding.run_bind_of_ok hvalue, hvalue']

/-- A decision settles on its value. -/
theorem Settles.ofDeciding {x : Deciding β} {v : β} (h : x.run.value = .ok v) :
    Settles c (ofDeciding x) v := by
  intro memo hmemo
  refine ⟨memo, ?_, hmemo⟩
  rw [Expanding.ofDeciding, Deciding.run_bind_of_ok h]
  rfl

/-- A value with notes settles. -/
theorem Settles.ofNoted (x : Noted β) : Settles c (ofNoted x) x.value := .ofDeciding rfl

end Expanding

/-- Looking for the shape of a block settles on the shape that the rules give. -/
theorem settles_resolveShape (blockName : String) :
    Expanding.Settles c (.ofLookup (c.resolveShape blockName))
      (c.shapeOf (stripNamespace blockName)) := by
  intro memo h
  have hinsert := h.insert (stripNamespace blockName)
  rw [Catalog.shapeOf] at hinsert ⊢
  simp only [Expanding.ofLookup, Catalog.resolveShape, lookUpShape]
  split
  next shape hget => exact ⟨memo, by rw [h _ shape hget]; rfl, h⟩
  · split
    next shape hrule =>
      rw [hrule] at hinsert ⊢
      exact ⟨_, rfl, hinsert⟩
    next hrule =>
      rw [hrule] at hinsert ⊢
      exact ⟨_, rfl, hinsert⟩

end

section

variable {α : Type} [Scalar α] {c : Catalog α} {limits : ExpansionLimits}

open Expanding CopyTree Progress

/-! ## One template -/

/-- The templates that a template leaves for the next level. -/
def nextEntries (c : Catalog α) (limits : ExpansionLimits) (b : Block) (e : Entry α) :
    List (Entry α) :=
  let r := e.template.read b
  if r.holds then
    if limits.maxDepth < e.chain.length then [] else copiedEntries c r.template e.chain
  else []

/-- What leaves come to: cubes, and cubes of embedded blocks. -/
def leavesYield (c : Catalog α) (embed : Option (Block → String → List (Cube α))) (b : Block)
    (shape : String) (leaves : List (Reading α)) (next : List (Entry α)) : Yield α where
  cubes := leaves.filterMap (Reading.cube? shape)
  embedded := leaves.flatMap (Reading.embedded c embed b)
  next

/-- A lenient run copies the templates of the shape that is named, each read after the copying
template, or nothing if that is refused. -/
theorem value_copyTemplates (hstrict : limits.strict = false) (b : Block) {t : Template α}
    {target : String} (hcopy : t.copy = some target) {chain : List String} :
    (copyTemplates c limits b { t with copy := none } target chain).run.value =
      .ok (if limits.maxDepth < chain.length then [] else copiedEntries c t chain) := by
  simp only [copyTemplates, copiedEntries, hcopy]
  split
  · rw [Deciding.value_refuse hstrict, ite_self]
  split
  · rw [Deciding.value_refuse hstrict]
  split
  next hgeometry =>
    rw [hgeometry]
    rfl
  next templates hgeometry =>
    rw [hgeometry]
    rfl

/-- What the work list makes of a template. -/
def Reading.decision (c : Catalog α) (limits : ExpansionLimits) (b : Block) (shape : String)
    (chain : List String) (r : Reading α) : Decision α :=
  if r.holds then
    match r.template.copy, r.template.copyBlock with
    | some _, _ =>
      .copies (if limits.maxDepth < chain.length then [] else copiedEntries c r.template chain)
    | none, some directive =>
      match (findEmbedded c (r.override.getD b) directive).value with
      | some found =>
        .embeds (r.override.getD b).name found (r.template.translate.getD (.fill 0))
      | none => .dropped
    | none, none => .cube (Cube.ofTemplate r.template r.override shape)
  else .dropped

/-- A lenient run decides a template by what its text says. -/
theorem value_decideEntry (hstrict : limits.strict = false) (b : Block) (shape : String)
    (e : Entry α) :
    (decideEntry c limits b shape e).run.value =
      .ok ((e.template.read b).decision c limits b shape e.chain) := by
  simp only [decideEntry, Deciding.value_liftM_bind, Template.read]
  generalize (overrideBlock b e.template).value = override
  generalize (conditionHolds (override.getD b) e.template.condition).value = holds
  cases holds with
  | false => rfl
  | true =>
    simp only [Bool.not_true, Bool.false_eq_true, if_false, if_true, Deciding.value_liftM_bind,
      Reading.decision]
    generalize (fillTemplate (override.getD b) e.template).value = t
    cases hcopy : t.copy with
    | some target =>
      dsimp only
      rw [Deciding.run_bind_of_ok (value_copyTemplates hstrict b hcopy)]
      rfl
    | none =>
      cases t.copyBlock with
      | none => rfl
      | some directive => rfl

/-- How blocks are embedded agrees with what they mean; or no block is embedded any more. -/
inductive Embeds (c : Catalog α) :
    Option (BlockExpander α) → Option (Block → String → List (Cube α)) → Prop
  | none : Embeds c none none
  | some {expand : BlockExpander α} {embed : Block → String → List (Cube α)}
      (h : ∀ b shapeId, Settles c (expand b shapeId) (embed b shapeId)) :
      Embeds c (some expand) (some embed)

variable {expander : Option (BlockExpander α)}
  {embed : Option (Block → String → List (Cube α))}

/-- What a template comes to is read off its tree. -/
theorem settles_expandEntry (hstrict : limits.strict = false) (hembeds : Embeds c expander embed)
    (b : Block) (shape : String) (links : Nat) (e : Entry α) :
    Settles c (expandEntry c limits expander b shape e)
      (leavesYield c embed b shape (leavesAt 0 (copyTree c b links e))
        (nextEntries c limits b e)) := by
  refine .bind (.ofDeciding (value_decideEntry hstrict b shape e)) ?_
  have hleaves : leavesAt 0 (copyTree c b links e) =
      if (e.template.read b).isLeaf then [e.template.read b] else [] := by
    cases links <;> rfl
  rw [hleaves, nextEntries]
  generalize e.template.read b = r
  obtain ⟨t, override, holds⟩ := r
  cases holds with
  | false => exact .pure _
  | true =>
    cases hcopy : t.copy with
    | some target =>
      simp only [Reading.decision, Reading.isLeaf, hcopy]
      exact .pure _
    | none =>
      have hnext : copiedEntries c t e.chain = [] := by rw [copiedEntries, hcopy]
      simp only [Reading.decision, Reading.isLeaf, hcopy, hnext, ite_self, leavesYield,
        Option.isNone_none, Bool.and_self, if_true, List.filterMap_cons, List.filterMap_nil,
        List.flatMap_cons, List.flatMap_nil, List.append_nil, Reading.cube?, Reading.embedded]
      cases hdirective : t.copyBlock with
      | none => exact .pure _
      | some directive =>
        cases hembeds with
        | none =>
          dsimp only
          cases (findEmbedded c (override.getD b) directive).value with
          | none => exact .pure _
          | some found => exact .ofDeciding (Deciding.value_refuse hstrict _)
        | some h =>
          dsimp only
          cases (findEmbedded c (override.getD b) directive).value with
          | none => exact .pure _
          | some found => exact .bind (settles_resolveShape _) (.bind (h _ _) (.pure _))

/-! ## Levels -/

/-- The children of a level stand in the trees of the next. -/
theorem leavesAt_succ_copyTree (b : Block) (level : Nat) {links : Nat} {e : Entry α}
    (hlinks : e.chain.length + (links + 1) = limits.maxDepth + 1) :
    leavesAt (level + 1) (copyTree c b (links + 1) e) =
      ((nextEntries c limits b e).map (copyTree c b links)).flatMap (leavesAt level) := by
  have hroom : ¬limits.maxDepth < e.chain.length := by omega
  simp only [copyTree, leavesAt, nextEntries, if_neg hroom]
  split
  · rfl
  · rfl

/-- The entries after an entry are copies of it. -/
theorem isCopyOf_of_mem_nextEntries {b : Block} {e entry : Entry α}
    (h : e ∈ nextEntries c limits b entry) : e.IsCopyOf c limits entry := by
  simp only [nextEntries, copiedEntries] at h
  split at h
  case isFalse => cases h
  split at h
  case isTrue => cases h
  next hlength =>
    split at h
    · cases h
    split at h
    case isTrue => cases h
    next target _ hnew =>
      rw [List.contains_iff_mem] at hnew
      refine ⟨Nat.le_of_not_lt hlength, (splitSpecial target).1, ?_, hnew, ?_⟩
      · obtain ⟨sub, -, rfl⟩ := List.mem_map.1 h
        rfl
      · cases hgeometry : c.geometry.get? (splitSpecial target).1 with
        | none =>
          rw [hgeometry] at h
          cases h
        | some templates => rfl

/-- The entries of the next level are copies of those of the level. -/
theorem exists_of_mem_flatMap_nextEntries {b : Block} {entries : List (Entry α)} :
    ∀ e ∈ entries.flatMap (nextEntries c limits b), ∃ entry ∈ entries,
      e.IsCopyOf c limits entry := by
  intro e he
  obtain ⟨entry, hentry, he⟩ := List.mem_flatMap.1 he
  exact ⟨entry, hentry, isCopyOf_of_mem_nextEntries he⟩

/-- The leaves in level order are those at the roots, and then those of the trees of the next
level. -/
theorem levelOrder_copyTree_succ (b : Block) {links : Nat} {entries : List (Entry α)}
    (h : HaveLinks limits (links + 1) entries) :
    levelOrder (links + 2) (entries.map (copyTree c b (links + 1))) =
      (entries.map (copyTree c b (links + 1))).flatMap (leavesAt 0) ++
        levelOrder (links + 1)
          ((entries.flatMap (nextEntries c limits b)).map (copyTree c b links)) := by
  rw [levelOrder_succ, levelOrder]
  refine congrArg _ (List.flatMap_congr fun level _ => ?_)
  rw [List.flatMap_map, List.map_flatMap, List.flatMap_assoc]
  exact List.flatMap_congr fun e he => leavesAt_succ_copyTree b level (h e he)

/-- What leaves come to is put together part by part. -/
theorem leavesYield_append (b : Block) (shape : String) (l m : List (Reading α))
    (next next' : List (Entry α)) :
    (leavesYield c embed b shape l next).append (leavesYield c embed b shape m next') =
      leavesYield c embed b shape (l ++ m) (next ++ next') := by
  simp only [leavesYield, Yield.append, List.filterMap_append, List.flatMap_append]

/-- A level comes to the leaves at the roots of its trees. -/
theorem settles_expandLevel (hstrict : limits.strict = false) (hembeds : Embeds c expander embed)
    (b : Block) (shape : String) (links : Nat) (entries : List (Entry α)) :
    Settles c (expandLevel c limits expander b shape entries)
      (leavesYield c embed b shape ((entries.map (copyTree c b links)).flatMap (leavesAt 0))
        (entries.flatMap (nextEntries c limits b))) := by
  induction entries with
  | nil => exact .pure _
  | cons e rest ih =>
    refine .bind (settles_expandEntry hstrict hembeds b shape links e) (.bind ih ?_)
    rw [leavesYield_append]
    exact .pure _

/-- All levels together come to the leaves in level order. -/
theorem settles_expandLevels (hstrict : limits.strict = false) (hembeds : Embeds c expander embed)
    (b : Block) (shape : String) {links : Nat} {entries : List (Entry α)}
    (h : HaveLinks limits links entries) :
    Settles c (expandLevels c limits expander b shape links entries)
      (leavesYield c embed b shape (levelOrder (links + 1) (entries.map (copyTree c b links)))
        []) := by
  induction links generalizing entries with
  | zero =>
    have hlevel := settles_expandLevel hstrict hembeds b shape 0 entries
    rw [h.next_eq_nil exists_of_mem_flatMap_nextEntries] at hlevel
    rw [levelOrder_succ, List.range_zero, List.flatMap_nil, List.append_nil]
    exact hlevel
  | succ links ih =>
    refine .bind (settles_expandLevel hstrict hembeds b shape (links + 1) entries) ?_
    rw [levelOrder_copyTree_succ b h]
    have hbelow := ih (h.next (exists_of_mem_flatMap_nextEntries (c := c) (b := b)))
    split
    next hempty =>
      have hnil : entries.flatMap (nextEntries c limits b) = [] := List.isEmpty_iff.1 hempty
      have hrest : levelOrder (links + 1) ([].map (copyTree c b links)) = [] :=
        List.flatMap_eq_nil_iff.2 fun _ _ => rfl
      rw [hnil, hrest, List.append_nil]
      exact .pure _
    · refine .bind hbelow ?_
      rw [← List.append_nil [], ← leavesYield_append]
      exact .pure _

/-! ## Blocks -/

/-- Expanding a block settles on the cubes that its shape means, if expanding embedded blocks
does. -/
theorem settles_expandWith (hstrict : limits.strict = false) (hembeds : Embeds c expander embed)
    (b : Block) (shapeId : String) :
    Settles c (expandWith c limits expander b shapeId)
      (cubesWith c limits.maxDepth embed b shapeId) := by
  simp only [expandWith, cubesWith]
  refine .bind (.ofNoted _) ?_
  cases (shapeGeometry c b (splitSpecial shapeId).1).value with
  | none => exact .pure _
  | some geometry =>
    have hlinks : HaveLinks limits limits.maxDepth
        (rootEntries geometry.1 (splitSpecial shapeId).2 geometry.2) :=
      haveLinks_rootEntries _ _ _
    exact .bind (settles_expandLevels hstrict hembeds b geometry.1 hlinks) (.pure _)

/-- The expander for the nestings that are left settles on the cubes of embedded blocks, by
induction on the nestings. -/
theorem embeds_nestedExpander (hstrict : limits.strict = false) (levels : Nat) :
    Embeds c (nestedExpander c limits levels) (embeddedCubes c limits.maxDepth levels) := by
  induction levels with
  | zero => exact .none
  | succ levels ih =>
    refine .some fun b shapeId => ?_
    rw [expandNested_eq, cubesOf_eq]
    exact settles_expandWith hstrict ih b shapeId

/-- Expanding a block settles on the cubes that its shape means. -/
theorem settles_expandNested (hstrict : limits.strict = false) (levels : Nat) (b : Block)
    (shapeId : String) :
    Settles c (expandNested c limits levels b shapeId)
      (cubesOf c limits.maxDepth levels b shapeId) := by
  rw [expandNested_eq, cubesOf_eq]
  exact settles_expandWith hstrict (embeds_nestedExpander hstrict levels) b shapeId

/-- Every expansion that has a result lists the cubes that the shape means, strict or not. -/
theorem eq_cubesOf_of_expand {memo memo' : ShapeMemo} (hmemo : memo.IsFaithful c) {b : Block}
    {shapeId : String} {cubes : List (Cube α)}
    (h : (expand c limits b shapeId memo).run.value = .ok (cubes, memo')) :
    cubes = cubesOf c limits.maxDepth limits.maxDepth b shapeId := by
  have hsettles : Settles c (expand c (limits.withStrict false) b shapeId)
      (cubesOf c limits.maxDepth limits.maxDepth b shapeId) :=
    settles_expandNested rfl limits.maxDepth b shapeId
  obtain ⟨memo'', hvalue, -⟩ := hsettles memo hmemo
  have hagrees := agrees_expand c limits b shapeId memo
  cases hstrict : limits.strict with
  | false =>
    have hlimits : limits.withStrict false = limits := by rw [ExpansionLimits.withStrict, ← hstrict]
    rw [hlimits] at hvalue
    cases h.symm.trans hvalue
    rfl
  | true =>
    have hlimits : limits.withStrict true = limits := by rw [ExpansionLimits.withStrict, ← hstrict]
    rw [hlimits] at hagrees
    cases hfind : (expand c (limits.withStrict false) b shapeId memo).run.notes.find?
        Diagnostic.isRefusal with
    | none =>
      rw [hagrees.eq_of_none hfind] at h
      cases h.symm.trans hvalue
      rfl
    | some d =>
      obtain ⟨failure, hfailure, -⟩ := hagrees.fails_of_some hfind
      cases h.symm.trans hfailure

/-- Steps lead to a result if they lead to what has the result. -/
theorem Progress.Leads.exists_run {p q : Progress α} {y : Expanding (Progress α)}
    (h : Leads c limits (pure p) y) (hy : Settles c y q) {memo : ShapeMemo}
    (hmemo : memo.IsFaithful c) :
    ∃ n memo', (run c limits n p memo).run.value = .ok (q, memo') ∧ memo'.IsFaithful c := by
  obtain ⟨n, hn⟩ := h memo
  rw [pure_bind] at hn
  exact ⟨n, hn ▸ hy memo hmemo⟩

/-- The work list does what copying means, at every level of embedding. The queue that begins with
some templates is worked off, and then the leaves of their trees are collected: in level order
(`leavesOf`), which lists every leaf of the trees once. The cubes of a block are the merged bare
ones, the others, and those of embedded blocks. What is remembered stays faithful. -/
structure Refines (c : Catalog α) (limits : ExpansionLimits) (memo : ShapeMemo) : Prop where
  collected : ∀ {levels : Nat} {suspended : List (Suspended α)},
    levels + suspended.length = limits.maxDepth →
    ∀ b shape path templates,
      let roots := rootEntries shape path templates
      let leaves := leavesOf c limits.maxDepth b roots
      ∃ n memo', (run c limits n (.working ⟨b, shape, roots, [], []⟩ suspended) memo).run.value =
        .ok (.working ⟨b, shape, [], leaves.filterMap (Reading.cube? shape),
          leaves.flatMap (Reading.embedded c (embeddedCubes c limits.maxDepth levels) b)⟩
          suspended, memo') ∧ memo'.IsFaithful c
  each_once : ∀ b roots, (leavesOf c limits.maxDepth b roots).Perm
    (leavesOfAll (roots.map (copyTree c b limits.maxDepth)))
  result : ∀ {levels : Nat} {suspended : List (Suspended α)},
    levels + suspended.length = limits.maxDepth →
    ∀ b shapeId, ∃ n memo', (run c limits n (.entering b shapeId suspended) memo).run.value =
      .ok (.resume (cubesOf c limits.maxDepth levels b shapeId) suspended, memo') ∧
        memo'.IsFaithful c
  expand_eq : ∀ b shapeId, ∃ memo', (expand c limits b shapeId memo).run.value =
    .ok (cubesOf c limits.maxDepth limits.maxDepth b shapeId, memo') ∧ memo'.IsFaithful c

/-- If what is remembered is faithful, a lenient run does what copying means, at every level of
embedding. -/
theorem refines_of_isFaithful (hstrict : limits.strict = false) {memo : ShapeMemo}
    (hmemo : memo.IsFaithful c) : Refines c limits memo where
  collected {levels suspended} hlevels b shape path templates := by
    let job : Job α := ⟨b, shape, rootEntries shape path templates, [], []⟩
    have hlinks : HaveLinks limits limits.maxDepth job.queue := haveLinks_rootEntries _ _ _
    have hleads := leads_levels (serves_nestedExpander (c := c) hlevels) hlinks
    have hsettles := settles_expandLevels hstrict (embeds_nestedExpander (c := c) hstrict levels) b
      shape hlinks
    exact hleads.exists_run (.bind hsettles (.pure _)) hmemo
  each_once b roots := by
    refine perm_levelOrder fun t ht => ?_
    obtain ⟨e, -, rfl⟩ := List.mem_map.1 ht
    exact hasHeight_copyTree c b limits.maxDepth e
  result hlevels b shapeId :=
    (leads_nested hlevels b shapeId).exists_run
      (.bind (settles_expandNested hstrict _ b shapeId) (.pure _)) hmemo
  expand_eq b shapeId := settles_expandNested hstrict limits.maxDepth b shapeId memo hmemo

/-- A cube and a shape that copies it back: the copy of the copy is left out, and each cube is
there once, the one of the first level before that of the second. -/
theorem refines_of_isFaithful_of_ring :
    let cube (y : Rat) : Template Rat := { pos := some ⟨0, y, 0⟩ }
    let ring (shape : String) : Template Rat := { copy := some shape }
    let c : Catalog Rat :=
      { geometry := (Table.empty.insert "block" [ring "lid", cube 0]).insert "lid"
          [cube 16, ring "block"] }
    let b : Block := { name := "chest" }
    Refines c {} .empty ∧
      (leavesOf c 8 b (rootEntries "block" none [ring "lid", cube 0])).map (·.template.pos) =
        [some ⟨0, 0, 0⟩, some ⟨0, 16, 0⟩] := by
  intro cube ring c b
  exact ⟨refines_of_isFaithful rfl ShapeMemo.isFaithful_empty, by decide +kernel⟩

end

end BlockModels
