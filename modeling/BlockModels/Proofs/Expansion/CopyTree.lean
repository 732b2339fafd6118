import BlockModels.Expansion.Basic
import BlockModels.Proofs.Lists

/-!
# What copying means

The meaning of a shape for a block, without a queue. Every template is the root of a tree
(`copyTree`): below a template that copies a shape stand the templates of that shape, each with what
the copying one says, and so on, until a shape would stand below itself or the chain of shapes is
as long as it may be. The leaves of a tree that are shown are those templates that copy nothing and
whose conditions hold all the way up. They can be listed in depth (`CopyTree.leaves`) or one level
after the other (`levelOrder`); either way each leaf is listed once (`perm_levelOrder`). From the
leaves the cubes of a block are put together (`cubesOf`).
-/

namespace BlockModels

/-- A template as it is for a block: its texts are filled in, its states are put in place, and its
condition is evaluated. -/
structure Reading (α : Type) where
  template : Template α
  override : Option Block
  holds : Bool

/-- A template with the templates that stand in its place. -/
inductive CopyTree (α : Type) where
  | node (reading : Reading α) (children : List (CopyTree α))

section

variable {α : Type}

/-- Reads a template for a block. The condition and the texts see the states of the template. -/
def Template.read (b : Block) (t : Template α) : Reading α :=
  let override := (overrideBlock b t).value
  let context := override.getD b
  { template := (fillTemplate context t).value
    override
    holds := (conditionHolds context t.condition).value }

/-- A leaf that is shown: the template copies nothing, and its condition holds. -/
def Reading.isLeaf (r : Reading α) : Bool := r.holds && r.template.copy.isNone

/-- The cube of a leaf that embeds no block. -/
def Reading.cube? [Scalar α] (shape : String) (r : Reading α) : Option (Cube α) :=
  match r.template.copyBlock with
  | none => some (Cube.ofTemplate r.template r.override shape)
  | some _ => none

theorem Reading.eq_ofTemplate_of_cube? [Scalar α] {shape : String} {r : Reading α} {cube : Cube α}
    (h : r.cube? shape = some cube) : cube = Cube.ofTemplate r.template r.override shape := by
  rw [cube?] at h
  split at h
  · exact (Option.some.inj h).symm
  · cases h

namespace CopyTree

/-- The leaves so many levels below the root, from left to right, if the conditions above them
hold. -/
def leavesAt : Nat → CopyTree α → List (Reading α)
  | 0, .node r _ => if r.isLeaf then [r] else []
  | level + 1, .node r children => if r.holds then children.flatMap (leavesAt level) else []

mutual

/-- All leaves of a tree in depth, if the conditions above them hold. -/
def leaves : CopyTree α → List (Reading α)
  | .node r children =>
    (if r.isLeaf then [r] else []) ++ (if r.holds then leavesOfAll children else [])

/-- The leaves of one tree after the other. -/
def leavesOfAll : List (CopyTree α) → List (Reading α)
  | [] => []
  | t :: rest => t.leaves ++ leavesOfAll rest

end

theorem leavesOfAll_eq (forest : List (CopyTree α)) :
    leavesOfAll forest = forest.flatMap leaves := by
  induction forest with
  | nil => rw [leavesOfAll, List.flatMap_nil]
  | cons t rest ih => rw [leavesOfAll, List.flatMap_cons, ih]

/-- The tree has no more levels than the number. -/
inductive HasHeight : Nat → CopyTree α → Prop
  | node {n : Nat} {r : Reading α} {children : List (CopyTree α)}
      (h : ∀ t ∈ children, HasHeight n t) : HasHeight (n + 1) (.node r children)

end CopyTree

open CopyTree

/-- The leaves of some trees, one level after the other, from left to right within a level. -/
def levelOrder (levels : Nat) (forest : List (CopyTree α)) : List (Reading α) :=
  (List.range levels).flatMap fun level => forest.flatMap (leavesAt level)

/-- The first level comes first. -/
theorem levelOrder_succ (levels : Nat) (forest : List (CopyTree α)) :
    levelOrder (levels + 1) forest = forest.flatMap (leavesAt 0) ++
      (List.range levels).flatMap fun level => forest.flatMap (leavesAt (level + 1)) := by
  rw [levelOrder, List.range_succ_eq_map, List.flatMap_cons, List.flatMap_map]

/-- The levels of a tree hold its leaves. -/
theorem CopyTree.HasHeight.perm_leaves {n : Nat} {t : CopyTree α} (h : t.HasHeight n) :
    ((List.range n).flatMap fun level => t.leavesAt level).Perm t.leaves := by
  induction h with
  | @node n r children _ ih =>
    rw [List.range_succ_eq_map, List.flatMap_cons, List.flatMap_map, leaves]
    refine .append_left _ ?_
    simp only [leavesAt]
    split
    · rw [leavesOfAll_eq]
      exact (flatMap_comm_perm _ _ _).trans (List.Perm.flatMap_left children ih)
    · rw [List.flatMap_eq_nil_iff.2 fun _ _ => rfl]

/-- One level after the other, every leaf is listed as often as in depth. -/
theorem perm_levelOrder {levels : Nat} {forest : List (CopyTree α)}
    (h : ∀ t ∈ forest, t.HasHeight levels) :
    (levelOrder levels forest).Perm (leavesOfAll forest) := by
  rw [leavesOfAll_eq]
  exact (flatMap_comm_perm _ _ _).trans
    (List.Perm.flatMap_left forest fun t ht => (h t ht).perm_leaves)

end

section

variable {α : Type} [Scalar α] (c : Catalog α)

/-- The templates in place of one that copies a shape, unless that shape is on its chain. -/
def copiedEntries (t : Template α) (chain : List String) : List (Entry α) :=
  match t.copy with
  | none => []
  | some target =>
    let (shape, path) := splitSpecial target
    if chain.contains shape then []
    else ((c.geometry.get? shape).getD []).map fun sub =>
      ⟨(sub.withSpecialPath path).inherit t, chain ++ [shape]⟩

/-- The tree of a template; the number is that of links that its chain may still get. -/
def copyTree (b : Block) : Nat → Entry α → CopyTree α
  | 0, e => .node (e.template.read b) []
  | links + 1, e =>
    let r := e.template.read b
    .node r ((copiedEntries c r.template e.chain).map (copyTree b links))

theorem hasHeight_copyTree (b : Block) (links : Nat) (e : Entry α) :
    (copyTree c b links e).HasHeight (links + 1) := by
  induction links generalizing e with
  | zero => exact .node (List.forall_mem_nil _)
  | succ links ih =>
    refine .node fun t ht => ?_
    obtain ⟨e', -, rfl⟩ := List.mem_map.1 ht
    exact ih e'

/-- The shape of a name without namespace. -/
def Catalog.shapeOf (name : String) : String := (c.shapeRule? name).getD defaultShape

/-- The cubes of the block that a leaf embeds. Without a meaning for blocks it embeds none. -/
def Reading.embedded (embed : Option (Block → String → List (Cube α))) (b : Block)
    (r : Reading α) : List (Cube α) :=
  match r.template.copyBlock, embed with
  | some directive, some embed =>
    match (findEmbedded c (r.override.getD b) directive).value with
    | none => []
    | some found =>
      let copied := c.embedded found
      (embed copied (c.shapeOf (stripNamespace copied.name))).map
        (Cube.embeddedIn copied (r.template.translate.getD (.fill 0)))
  | _, _ => []

/-- The leaves of the templates with which the work on a shape begins. -/
def leavesOf (maxDepth : Nat) (b : Block) (roots : List (Entry α)) : List (Reading α) :=
  levelOrder (maxDepth + 1) (roots.map (copyTree c b maxDepth))

/-- The cubes of a block: those of the leaves that have only a place and a size, merged, then those
of the other leaves, then those of the embedded blocks. -/
def cubesWith (maxDepth : Nat) (embed : Option (Block → String → List (Cube α))) (b : Block)
    (shapeId : String) : List (Cube α) :=
  match (shapeGeometry c b (splitSpecial shapeId).1).value with
  | none => []
  | some (shape, templates) =>
    let leaves := leavesOf c maxDepth b (rootEntries shape (splitSpecial shapeId).2 templates)
    let cubes := leaves.filterMap (Reading.cube? shape)
    (mergeCuboids ((cubes.filter Cube.isBare).map Cube.toCuboid)).map (Cube.ofCuboid shape)
      ++ cubes.filter (fun cube => !cube.isBare)
      ++ leaves.flatMap (Reading.embedded c embed b)

/-- The cubes of a block into which others may be nested the given number of levels deep. -/
def cubesOf (maxDepth : Nat) : Nat → Block → String → List (Cube α)
  | 0 => cubesWith c maxDepth none
  | levels + 1 => cubesWith c maxDepth (some (cubesOf maxDepth levels))

/-- What the blocks mean that are embedded where so many levels remain. -/
def embeddedCubes (maxDepth : Nat) : Nat → Option (Block → String → List (Cube α))
  | 0 => none
  | levels + 1 => some (cubesOf c maxDepth levels)

theorem cubesOf_eq (maxDepth levels : Nat) :
    cubesOf c maxDepth levels = cubesWith c maxDepth (embeddedCubes c maxDepth levels) := by
  cases levels <;> rfl

end

end BlockModels
