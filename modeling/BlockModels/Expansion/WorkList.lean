import BlockModels.Expansion.Basic

/-!
# The work list of an expansion

An expansion seen step by step. The templates that are still to be decided wait in a queue
(`Job.queue`): one is taken from the front, and those that it copies go to the back. A template
that embeds a block interrupts the job; the block is a job of its own, and the jobs that wait for it
lie on a stack. There is no limit on the number of steps here: that every expansion comes to an end,
and that its result is that of `expand`, are theorems about this definition.
-/

namespace BlockModels

/-- The work on one block: the templates that wait, and what was made so far. -/
structure Job (α : Type) where
  block : Block
  shape : String
  queue : List (Entry α)
  cubes : List (Cube α) := []
  embedded : List (Cube α) := []

/-- A job that waits for the cubes of a block that is embedded in its own. -/
structure Suspended (α : Type) where
  job : Job α
  copied : Block
  offset : Vec3 α

/-- How far an expansion has come. The innermost of the suspended jobs is the first. -/
inductive Progress (α : Type) where
  /-- A block is next, by its shape. -/
  | entering (b : Block) (shapeId : String) (suspended : List (Suspended α))
  | working (job : Job α) (suspended : List (Suspended α))
  | finished (cubes : List (Cube α))

section

variable {α : Type} [Scalar α] (c : Catalog α) (limits : ExpansionLimits)

/-- The job when a template is decided: `rest` waits, and behind it what the template copies. -/
def Job.after (job : Job α) (rest : List (Entry α)) (y : Yield α) : Job α :=
  { job with
    queue := rest ++ y.next
    cubes := job.cubes ++ y.cubes
    embedded := job.embedded ++ y.embedded }

/-- The cubes of a job whose queue is empty. -/
def Job.result (job : Job α) : List (Cube α) :=
  assemble job.shape { cubes := job.cubes, embedded := job.embedded }

/-- The cubes of a block go to the job that waits for them. -/
def Progress.resume (cubes : List (Cube α)) : List (Suspended α) → Progress α
  | [] => .finished cubes
  | s :: suspended =>
    let embedded := s.job.embedded ++ cubes.map (Cube.embeddedIn s.copied s.offset)
    .working { s.job with embedded } suspended

/-- Begins the work on a block. -/
def Progress.enter (b : Block) (shapeId : String) (suspended : List (Suspended α)) :
    Expanding (Progress α) := do
  let (shape, path) := splitSpecial shapeId
  match ← Expanding.ofNoted (shapeGeometry c b shape) with
  | none => return .resume [] suspended
  | some (shape, templates) =>
    return .working { block := b, shape, queue := rootEntries shape path templates } suspended

/-- Decides the template at the front of the queue; `rest` is what waits behind it. The number of
suspended jobs is the depth to which blocks are nested. -/
def Job.decideFront (job : Job α) (suspended : List (Suspended α)) (entry : Entry α)
    (rest : List (Entry α)) : Expanding (Progress α) := do
  match ← Expanding.ofDeciding (decideEntry c limits job.block job.shape entry) with
  | .dropped => return .working (job.after rest {}) suspended
  | .cube cube => return .working (job.after rest { cubes := [cube] }) suspended
  | .copies next => return .working (job.after rest { next }) suspended
  | .embeds host found offset =>
    if limits.maxDepth ≤ suspended.length then do
      let y ← Expanding.ofDeciding (refuseEmbedding limits host found {})
      return .working (job.after rest y) suspended
    else do
      let copied := c.embedded found
      let shape ← Expanding.ofLookup (c.resolveShape copied.name)
      return .entering copied shape (⟨job.after rest {}, copied, offset⟩ :: suspended)

/-- One step of an expansion. -/
def Progress.step : Progress α → Expanding (Progress α)
  | .entering b shapeId suspended => enter c b shapeId suspended
  | .working job suspended =>
    match job.queue with
    | [] => return .resume job.result suspended
    | entry :: rest => job.decideFront c limits suspended entry rest
  | .finished cubes => return .finished cubes

/-- A number of steps. -/
def Progress.run : Nat → Progress α → Expanding (Progress α)
  | 0, p => return p
  | n + 1, p => do
    let q ← p.step c limits
    run n q

end

end BlockModels
