import BlockModels.Expansion.WorkList
import BlockModels.Proofs.Expansion.Strictness

/-!
# The work list comes to its end

Every copy makes a chain one shape longer, a chain holds no shape twice and has at most one link
more than the limit (`Entry.IsBounded`), and no more jobs are suspended than blocks may be nested
(`Progress.IsBounded`). Each step keeps these bounds. An expansion step by step therefore does what
the definition by levels does, which is a recursion on these bounds: the queue takes up one level
after the other (`leads_levels`), and an embedded block comes back with its cubes
(`leads_nested`). So every run of the work list ends, with the result of `expand`
(`ends_of_entering`).
-/

namespace BlockModels

/-! ## Chains -/

section

variable {α : Type} {c : Catalog α} {limits : ExpansionLimits}

/-- The shapes through which a template was copied are different ones with a geometry, and no more
than the limit allows. -/
structure Entry.IsBounded (c : Catalog α) (limits : ExpansionLimits) (e : Entry α) : Prop where
  nodup : e.chain.Nodup
  known : ∀ shape ∈ e.chain, (c.geometry.get? shape).isSome
  length_le : e.chain.length ≤ limits.maxDepth + 1

/-- A template that is copied: its chain goes on with a shape that was not on it, and that has a
geometry. -/
structure Entry.IsCopyOf (c : Catalog α) (limits : ExpansionLimits) (e entry : Entry α) : Prop where
  length_le : entry.chain.length ≤ limits.maxDepth
  chain_eq : ∃ shape, e.chain = entry.chain ++ [shape] ∧ shape ∉ entry.chain ∧
    (c.geometry.get? shape).isSome

/-- A copy of an entry with a bounded chain has a bounded chain. -/
theorem Entry.IsCopyOf.isBounded {e entry : Entry α} (h : e.IsCopyOf c limits entry)
    (hentry : entry.IsBounded c limits) : e.IsBounded c limits := by
  obtain ⟨shape, hchain, hnew, hknown⟩ := h.chain_eq
  refine ⟨?_, ?_, ?_⟩
  · rw [hchain]
    refine List.nodup_append.2 ⟨hentry.nodup, List.pairwise_singleton _ _, ?_⟩
    rintro s hs t ht rfl
    exact hnew (List.mem_singleton.1 ht ▸ hs)
  · rw [hchain]
    intro s hs
    rcases List.mem_append.1 hs with hs | hs
    · exact hentry.known s hs
    · rwa [List.mem_singleton.1 hs]
  · rw [hchain, List.length_append, List.length_singleton]
    exact Nat.succ_le_succ h.length_le

/-- The chains of a shape's own templates are bounded. -/
theorem isBounded_rootEntries {shape : String} {templates : List (Template α)}
    (h : c.geometry.get? shape = some templates) (path : Option String) :
    ∀ e ∈ rootEntries shape path templates, e.IsBounded c limits := by
  intro e he
  obtain ⟨t, -, rfl⟩ := List.mem_map.1 he
  refine ⟨List.pairwise_singleton _ _, ?_, ?_⟩
  · intro s hs
    rw [List.mem_singleton.1 hs, h]
    rfl
  · rw [List.length_singleton]
    exact Nat.le_add_left 1 _

/-- A geometry that is found is one of the catalog's. -/
theorem shapeGeometry_eq {b : Block} {shape : String} {found : String × List (Template α)}
    (h : (shapeGeometry c b shape).value = some found) :
    c.geometry.get? found.1 = some found.2 := by
  rw [shapeGeometry] at h
  split at h
  next templates htemplates =>
    cases h
    exact htemplates
  · obtain ⟨templates, htemplates, rfl⟩ := Option.map_eq_some_iff.1 h
    exact htemplates

/-- The jobs that are not done. -/
def Progress.jobs : Progress α → List (Job α)
  | .entering _ _ suspended => suspended.map (·.job)
  | .working job suspended => job :: suspended.map (·.job)
  | .finished _ => []

/-- The jobs that wait for an embedded block. -/
def Progress.waiting : Progress α → List (Suspended α)
  | .entering _ _ suspended => suspended
  | .working _ suspended => suspended
  | .finished _ => []

/-- Whatever waits in a queue has a bounded chain, and blocks are not nested too deep. -/
structure Progress.IsBounded (c : Catalog α) (limits : ExpansionLimits) (p : Progress α) :
    Prop where
  entries : ∀ job ∈ p.jobs, ∀ e ∈ job.queue, e.IsBounded c limits
  depth : p.waiting.length ≤ limits.maxDepth

/-- The chains of a level may still get so many links, and no more. -/
def HaveLinks (limits : ExpansionLimits) (links : Nat) (entries : List (Entry α)) : Prop :=
  ∀ e ∈ entries, e.chain.length + links = limits.maxDepth + 1

/-- Each level leaves one link less for the next. -/
theorem HaveLinks.next {links : Nat} {entries next : List (Entry α)}
    (h : HaveLinks limits (links + 1) entries)
    (hnext : ∀ e ∈ next, ∃ entry ∈ entries, e.IsCopyOf c limits entry) :
    HaveLinks limits links next := by
  intro e he
  obtain ⟨entry, hentry, hcopy⟩ := hnext e he
  obtain ⟨shape, hchain, -⟩ := hcopy.chain_eq
  have heq := h entry hentry
  rw [hchain, List.length_append, List.length_singleton]
  omega

/-- Without links there is no next level. -/
theorem HaveLinks.next_eq_nil {entries next : List (Entry α)} (h : HaveLinks limits 0 entries)
    (hnext : ∀ e ∈ next, ∃ entry ∈ entries, e.IsCopyOf c limits entry) : next = [] := by
  refine List.eq_nil_iff_forall_not_mem.2 fun e he => ?_
  obtain ⟨entry, hentry, hcopy⟩ := hnext e he
  have hle := hcopy.length_le
  have heq := h entry hentry
  omega

/-- A shape's own templates have all links of a chain left. -/
theorem haveLinks_rootEntries (shape : String) (path : Option String)
    (templates : List (Template α)) :
    HaveLinks limits limits.maxDepth (rootEntries shape path templates) := by
  intro e he
  obtain ⟨t, -, rfl⟩ := List.mem_map.1 he
  exact Nat.add_comm _ _

end

section

variable {α : Type} [Scalar α] {c : Catalog α} {limits : ExpansionLimits}

/-- Copying a shape gives copies of the entry that asks for it. -/
theorem returns_copyTemplates (b : Block) (parent : Template α) (target : String)
    (entry : Entry α) :
    (copyTemplates c limits b parent target entry.chain).Returns
      fun entries => ∀ e ∈ entries, e.IsCopyOf c limits entry := by
  have hnil : ∀ e ∈ ([] : List (Entry α)), e.IsCopyOf c limits entry := List.forall_mem_nil _
  simp only [copyTemplates]
  split
  · exact .refuse hnil
  next hnew =>
    split
    · exact .refuse hnil
    next hlength =>
      split
      · exact .bind_of_forall fun _ => .pure hnil
      next templates hgeometry =>
        refine .pure fun e he => ?_
        obtain ⟨t, -, rfl⟩ := List.mem_map.1 he
        refine ⟨Nat.le_of_not_lt hlength, _, rfl, ?_, ?_⟩
        · rwa [List.contains_iff_mem] at hnew
        · rw [hgeometry]
          rfl

/-- If an entry is decided by copies, they are copies of it. -/
theorem returns_decideEntry (b : Block) (shape : String) (entry : Entry α) :
    (decideEntry c limits b shape entry).Returns
      fun d => ∀ next, d = .copies next → ∀ e ∈ next, e.IsCopyOf c limits entry := by
  refine .bind_of_forall fun override => .bind_of_forall fun holds => ?_
  split
  · exact .pure nofun
  refine .bind_of_forall fun t => ?_
  split
  · refine .bind (returns_copyTemplates b _ _ entry) fun entries hentries => .pure ?_
    rintro _ ⟨⟩
    exact hentries
  split
  · refine .bind_of_forall fun found => .pure ?_
    cases found <;> exact nofun
  · exact .pure nofun

/-- What an entry leaves to do is copies of it. -/
theorem returns_expandEntry (expander : Option (BlockExpander α)) (b : Block) (shape : String)
    (entry : Entry α) :
    (expandEntry c limits expander b shape entry).Returns
      fun y => ∀ e ∈ y.next, e.IsCopyOf c limits entry := by
  refine .bind (.ofDeciding (returns_decideEntry b shape entry)) fun d hd => ?_
  cases d with
  | dropped => exact .pure (List.forall_mem_nil _)
  | cube cube => exact .pure (List.forall_mem_nil _)
  | copies next => exact .pure (hd next rfl)
  | embeds host found offset =>
    cases expander with
    | none => exact .ofDeciding (.refuse (List.forall_mem_nil _))
    | some expand =>
      exact .bind_of_forall fun _ => .bind_of_forall fun _ => .pure (List.forall_mem_nil _)

/-- What a level leaves to do is copies of its entries. -/
theorem returns_expandLevel (expander : Option (BlockExpander α)) (b : Block) (shape : String)
    (entries : List (Entry α)) :
    (expandLevel c limits expander b shape entries).Returns
      fun y => ∀ e ∈ y.next, ∃ entry ∈ entries, e.IsCopyOf c limits entry := by
  induction entries with
  | nil => exact .pure (List.forall_mem_nil _)
  | cons entry rest ih =>
    refine .bind (returns_expandEntry expander b shape entry) fun first hfirst => ?_
    refine .bind ih fun others hothers => .pure fun e he => ?_
    rcases List.mem_append.1 he with he | he
    · exact ⟨entry, List.mem_cons_self, hfirst e he⟩
    · obtain ⟨entry', hentry', hcopy⟩ := hothers e he
      exact ⟨entry', List.mem_cons_of_mem _ hentry', hcopy⟩

/-- No level is left undone. -/
theorem returns_expandLevels (expander : Option (BlockExpander α)) (b : Block) (shape : String)
    {links : Nat} {entries : List (Entry α)} (h : HaveLinks limits links entries) :
    (expandLevels c limits expander b shape links entries).Returns fun y => y.next = [] := by
  induction links generalizing entries with
  | zero =>
    intro memo p hp
    exact h.next_eq_nil (returns_expandLevel expander b shape entries memo p hp)
  | succ links ih =>
    refine .bind (returns_expandLevel expander b shape entries) fun here hhere => ?_
    split
    next hempty => exact .pure (List.isEmpty_iff.1 hempty)
    · exact .bind (ih (h.next hhere)) fun below hbelow => .pure hbelow

/-! ## Steps -/

namespace Progress

/-- From what `x` comes to, some number of steps leads to what `y` comes to, with the same notes and
failures. The number may depend on the shapes that were asked for before. -/
def Leads (c : Catalog α) (limits : ExpansionLimits) (x y : Expanding (Progress α)) : Prop :=
  ∀ memo, ∃ n, (x >>= run c limits n) memo = y memo

variable {x y z : Expanding (Progress α)}

/-- A run of `m + n` steps is a run of `m` steps and then one of `n`. -/
theorem run_add (m n : Nat) (p : Progress α) :
    run c limits (m + n) p = run c limits m p >>= run c limits n := by
  induction m generalizing p with
  | zero => rw [Nat.zero_add, run, pure_bind]
  | succ m ih =>
    rw [Nat.succ_add, run, run, bind_assoc]
    exact bind_congr ih

/-- No steps lead from a computation to itself. -/
theorem Leads.refl (x : Expanding (Progress α)) : Leads c limits x x := fun memo =>
  ⟨0, congrFun (bind_pure x) memo⟩

/-- Steps that follow each other lead from the first to the last. -/
theorem Leads.trans (hxy : Leads c limits x y) (hyz : Leads c limits y z) :
    Leads c limits x z := by
  intro memo
  obtain ⟨m, hm⟩ := hxy memo
  obtain ⟨n, hn⟩ := hyz memo
  refine ⟨m + n, ?_⟩
  have hadd : x >>= run c limits (m + n) = (x >>= run c limits m) >>= run c limits n := by
    rw [bind_assoc]
    exact bind_congr (run_add m n)
  rw [hadd, Expanding.bind_apply, hm, ← Expanding.bind_apply, hn]

/-- Steps behind a common first part. -/
theorem Leads.bind {β : Type} {u : Expanding β} {P : β → Prop} {f g : β → Expanding (Progress α)}
    (hu : u.Returns P) (hfg : ∀ v, P v → Leads c limits (f v) (g v)) :
    Leads c limits (u >>= f) (u >>= g) := by
  intro memo
  simp only [bind_assoc, Expanding.bind_apply]
  cases hvalue : (u memo).run.value with
  | error e =>
    refine ⟨0, ?_⟩
    exact (Deciding.run_bind_of_error hvalue).trans (Deciding.run_bind_of_error hvalue).symm
  | ok v =>
    obtain ⟨n, hn⟩ := hfg v.1 (hu memo v hvalue) v.2
    refine ⟨n, (Deciding.run_bind_of_ok hvalue).trans ?_⟩
    rw [← Expanding.bind_apply, hn]
    exact (Deciding.run_bind_of_ok (f := fun p => g p.1 p.2) hvalue).symm

/-- After the same computation, steps lead on from each of its results. -/
theorem Leads.bind_of_forall {β : Type} {u : Expanding β} {f g : β → Expanding (Progress α)}
    (hfg : ∀ v, Leads c limits (f v) (g v)) : Leads c limits (u >>= f) (u >>= g) :=
  .bind (P := fun _ => True) (fun _ _ _ => trivial) fun v _ => hfg v

/-- What the first step leads to, the state before it leads to. -/
theorem Leads.of_step {p : Progress α} (h : Leads c limits (p.step c limits) y) :
    Leads c limits (pure p) y := by
  intro memo
  obtain ⟨n, hn⟩ := h memo
  refine ⟨n + 1, ?_⟩
  rw [pure_bind, run]
  exact hn

end Progress

open Progress

/-! ## The queue takes up one level after the other -/

/-- What the expander of embedded blocks does, the work list does by itself. Without an expander the
jobs are suspended as deep as they may be. -/
inductive Serves (c : Catalog α) (limits : ExpansionLimits) (suspended : List (Suspended α)) :
    Option (BlockExpander α) → Prop
  | none (h : limits.maxDepth ≤ suspended.length) : Serves c limits suspended none
  | some {expand : BlockExpander α} (hdepth : suspended.length < limits.maxDepth)
      (h : ∀ b shapeId (s : Suspended α),
        Leads c limits (pure (.entering b shapeId (s :: suspended)))
          (expand b shapeId >>= fun cubes => pure (.resume cubes (s :: suspended)))) :
      Serves c limits suspended (some expand)

variable {suspended : List (Suspended α)} {expander : Option (BlockExpander α)}

/-- One template is decided: what it copies waits behind the rest. -/
theorem leads_entry (h : Serves c limits suspended expander) {job : Job α} {entry : Entry α}
    {rest : List (Entry α)} (hqueue : job.queue = entry :: rest) :
    Leads c limits (pure (.working job suspended))
      (expandEntry c limits expander job.block job.shape entry >>= fun y =>
        pure (.working (job.after rest y) suspended)) := by
  refine .of_step ?_
  rw [step, hqueue]
  simp only [Job.decideFront, expandEntry, bind_assoc]
  refine .bind_of_forall fun d => ?_
  cases d with
  | dropped => exact .refl _
  | cube cube => exact .refl _
  | copies next => exact .refl _
  | embeds host found offset =>
    cases h with
    | none hdepth =>
      simp only [if_pos hdepth]
      exact .refl _
    | some hdepth h =>
      simp only [if_neg (Nat.not_le.2 hdepth), bind_assoc]
      refine .bind_of_forall fun shape => (h _ shape _).trans (.bind_of_forall fun cubes => ?_)
      rw [pure_bind]
      simp only [resume, Job.after, List.append_nil]
      exact .refl _

/-- Steps lead through the entries at the front of the queue as a level does, and leave their copies
behind the entries that were queued already. -/
theorem leads_level (h : Serves c limits suspended expander) {job : Job α}
    {entries later : List (Entry α)} (hqueue : job.queue = entries ++ later) :
    Leads c limits (pure (.working job suspended))
      (expandLevel c limits expander job.block job.shape entries >>= fun y =>
        pure (.working (job.after later y) suspended)) := by
  induction entries generalizing job later with
  | nil =>
    have hjob : job.after later {} = job := by
      rw [List.nil_append] at hqueue
      simp only [Job.after, List.append_nil, ← hqueue]
    rw [expandLevel, pure_bind, hjob]
    exact .refl _
  | cons entry rest ih =>
    simp only [expandLevel, bind_assoc, pure_bind]
    refine (leads_entry h hqueue).trans (.bind_of_forall fun first => ?_)
    have hfirst : (job.after (rest ++ later) first).queue = rest ++ (later ++ first.next) :=
      List.append_assoc _ _ _
    have hrest := ih hfirst
    have hafter : ∀ others, (job.after (rest ++ later) first).after (later ++ first.next) others =
        job.after later (first.append others) := by
      intro others
      simp only [Job.after, Yield.append, List.append_assoc]
    simp only [hafter] at hrest
    exact hrest

/-- The queue is empty when all levels are done. -/
theorem leads_levels (h : Serves c limits suspended expander) {links : Nat} {job : Job α}
    (hlinks : HaveLinks limits links job.queue) :
    Leads c limits (pure (.working job suspended))
      (expandLevels c limits expander job.block job.shape links job.queue >>= fun y =>
        pure (.working (job.after [] y) suspended)) := by
  induction links generalizing job with
  | zero => exact leads_level h (List.append_nil _).symm
  | succ links ih =>
    simp only [expandLevels, bind_assoc]
    refine (leads_level h (List.append_nil _).symm).trans ?_
    refine .bind (returns_expandLevel expander _ _ _) fun here hhere => ?_
    split
    · rw [pure_bind]
      exact .refl _
    · have hafter : ∀ below, (job.after [] here).after [] below =
          job.after [] ({ here with next := [] }.append below) := by
        intro below
        simp only [Job.after, Yield.append, List.nil_append, List.append_assoc]
      simp only [bind_assoc, pure_bind, ← hafter]
      exact ih (hlinks.next hhere)

/-! ## Embedded blocks come back with their cubes -/

/-- Steps lead from a block to the cubes of its expansion by levels, if the blocks it embeds are
served. -/
theorem leads_expandWith (h : Serves c limits suspended expander) (b : Block) (shapeId : String) :
    Leads c limits (pure (.entering b shapeId suspended))
      (expandWith c limits expander b shapeId >>= fun cubes => pure (.resume cubes suspended)) := by
  refine .of_step ?_
  simp only [step, enter, expandWith, bind_assoc]
  refine .bind_of_forall fun geometry => ?_
  cases geometry with
  | none => exact .refl _
  | some geometry =>
    simp only [bind_assoc, pure_bind]
    let job : Job α := ⟨b, geometry.1,
      rootEntries geometry.1 (splitSpecial shapeId).2 geometry.2, [], []⟩
    have hlinks : HaveLinks limits limits.maxDepth job.queue := haveLinks_rootEntries _ _ _
    refine (leads_levels h hlinks).trans ?_
    refine .bind (returns_expandLevels expander b _ hlinks) fun y hy => .of_step ?_
    have hqueue : (job.after [] y).queue = [] := hy
    rw [step, hqueue]
    exact .refl _

/-- What expands the blocks that are embedded where so many levels remain. -/
def nestedExpander (c : Catalog α) (limits : ExpansionLimits) : Nat → Option (BlockExpander α)
  | 0 => none
  | levels + 1 => some (expandNested c limits levels)

/-- An expansion with `levels` nestings left embeds blocks by the expander for them. -/
theorem expandNested_eq (levels : Nat) :
    expandNested c limits levels = expandWith c limits (nestedExpander c limits levels) := by
  cases levels <;> rfl

/-- The expander for the nestings that are left serves the embedded blocks, by induction on the
nestings. -/
theorem serves_nestedExpander {levels : Nat}
    (hlevels : levels + suspended.length = limits.maxDepth) :
    Serves c limits suspended (nestedExpander c limits levels) := by
  induction levels generalizing suspended with
  | zero => exact .none (by omega)
  | succ levels ih =>
    refine .some (by omega) fun b shapeId s => ?_
    have hbelow : levels + (s :: suspended).length = limits.maxDepth := by
      rw [List.length_cons]
      omega
    rw [expandNested_eq]
    exact leads_expandWith (ih hbelow) b shapeId

/-- Steps lead from a block to the cubes of its nested expansion. -/
theorem leads_nested {levels : Nat} (hlevels : levels + suspended.length = limits.maxDepth)
    (b : Block) (shapeId : String) :
    Leads c limits (pure (.entering b shapeId suspended))
      (expandNested c limits levels b shapeId >>= fun cubes =>
        pure (.resume cubes suspended)) := by
  rw [expandNested_eq]
  exact leads_expandWith (serves_nestedExpander hlevels) b shapeId

/-! ## What holds at every step -/

/-- What a decision adds to a job. The cubes of an embedded block come later. -/
def Decision.yield : Decision α → Yield α
  | .dropped | .embeds .. => {}
  | .cube made => { cubes := [made] }
  | .copies next => { next }

/-- A property of jobs that each job has when it begins, and keeps when a template is decided and
when an embedded block comes back. -/
structure Job.IsKept (c : Catalog α) (limits : ExpansionLimits) (P : Job α → Prop) : Prop where
  root : ∀ b shape path templates, c.geometry.get? shape = some templates →
    P ⟨b, shape, rootEntries shape path templates, [], []⟩
  after : ∀ job entry rest, P job → job.queue = entry :: rest →
    (decideEntry c limits job.block job.shape entry).Returns fun d => P (job.after rest d.yield)
  embedded : ∀ job embedded, P job → P { job with embedded }

/-- Every job that is not done has the property, and blocks are not nested too deep. -/
structure Progress.Keeps (limits : ExpansionLimits) (P : Job α → Prop) (p : Progress α) : Prop where
  jobs : ∀ job ∈ p.jobs, P job
  depth : p.waiting.length ≤ limits.maxDepth

section

variable {P : Job α → Prop}

/-- Handing the cubes of a block to the job that waits for them keeps the property. -/
theorem Progress.Keeps.resume (hkept : Job.IsKept c limits P) {cubes : List (Cube α)} {b : Block}
    {shapeId : String} (h : (entering b shapeId suspended).Keeps limits P) :
    (resume cubes suspended).Keeps limits P := by
  cases suspended with
  | nil => exact ⟨List.forall_mem_nil _, Nat.zero_le _⟩
  | cons s suspended =>
    refine ⟨?_, Nat.le_of_succ_le h.depth⟩
    obtain ⟨hfirst, hothers⟩ := List.forall_mem_cons.1 h.jobs
    exact List.forall_mem_cons.2 ⟨hkept.embedded _ _ hfirst, hothers⟩

/-- Entering a block keeps the property. -/
theorem returns_enter (hkept : Job.IsKept c limits P) (b : Block) (shapeId : String)
    (h : (entering b shapeId suspended).Keeps limits P) :
    (enter c b shapeId suspended).Returns (·.Keeps limits P) := by
  refine .bind (P := fun geometry => ∀ found, geometry = some found →
    c.geometry.get? found.1 = some found.2) (.ofNoted fun _ => shapeGeometry_eq) ?_
  intro geometry hgeometry
  cases geometry with
  | none => exact .pure (h.resume hkept)
  | some found =>
    exact .pure ⟨List.forall_mem_cons.2 ⟨hkept.root b _ _ _ (hgeometry found rfl), h.jobs⟩,
      h.depth⟩

/-- Deciding the template at the front of the queue keeps the property. -/
theorem returns_decideFront (hkept : Job.IsKept c limits P) {job : Job α} {entry : Entry α}
    {rest : List (Entry α)} (hqueue : job.queue = entry :: rest)
    (h : (working job suspended).Keeps limits P) :
    (job.decideFront c limits suspended entry rest).Returns (·.Keeps limits P) := by
  obtain ⟨hjob, hsuspended⟩ := List.forall_mem_cons.1 h.jobs
  have hworking : ∀ y, P (job.after rest y) →
      (working (job.after rest y) suspended).Keeps limits P := fun y hy =>
    ⟨List.forall_mem_cons.2 ⟨hy, hsuspended⟩, h.depth⟩
  refine .bind (.ofDeciding (hkept.after job entry rest hjob hqueue)) fun d hd => ?_
  cases d with
  | dropped => exact .pure (hworking _ hd)
  | cube cube => exact .pure (hworking _ hd)
  | copies next => exact .pure (hworking _ hd)
  | embeds host found offset =>
    dsimp only
    split
    · refine .bind (P := (· = {})) (.ofDeciding (.refuse rfl)) ?_
      rintro _ rfl
      exact .pure (hworking _ hd)
    next hdepth =>
      refine .bind_of_forall fun _ => .pure ⟨?_, Nat.lt_of_not_le hdepth⟩
      exact List.forall_mem_cons.2 ⟨hd, hsuspended⟩

/-- One step keeps the property. -/
theorem returns_step (hkept : Job.IsKept c limits P) {p : Progress α} (h : p.Keeps limits P) :
    (p.step c limits).Returns (·.Keeps limits P) := by
  cases p with
  | entering b shapeId suspended => exact returns_enter hkept b shapeId h
  | working job suspended =>
    rw [step]
    split
    · have hwaiting : (entering job.block job.shape suspended).Keeps limits P :=
        ⟨(List.forall_mem_cons.1 h.jobs).2, h.depth⟩
      exact .pure (hwaiting.resume hkept)
    next entry rest hqueue => exact returns_decideFront hkept hqueue h
  | finished cubes => exact .pure h

/-- Any number of steps keeps the property, by induction on their number. -/
theorem returns_run (hkept : Job.IsKept c limits P) (n : Nat) {p : Progress α}
    (h : p.Keeps limits P) : (run c limits n p).Returns (·.Keeps limits P) := by
  induction n generalizing p with
  | zero => exact .pure h
  | succ n ih => exact .bind (returns_step hkept h) fun q hq => ih hq

/-- Whatever every job keeps, all jobs of the expansion of a block have at every time. -/
theorem keeps_of_run (hkept : Job.IsKept c limits P) {b : Block} {shapeId : String} {n : Nat}
    {p : Progress α} {memo memo' : ShapeMemo}
    (h : (run c limits n (.entering b shapeId []) memo).run.value = .ok (p, memo')) :
    p.Keeps limits P :=
  returns_run hkept n ⟨List.forall_mem_nil _, Nat.zero_le _⟩ memo _ h

end

/-- The chains of the templates that wait stay bounded. -/
theorem isKept_isBounded (c : Catalog α) (limits : ExpansionLimits) :
    Job.IsKept c limits fun job => ∀ e ∈ job.queue, e.IsBounded c limits where
  root _ _ path _ h := isBounded_rootEntries h path
  after job entry rest h hqueue := by
    intro d hd e he
    have hcopy := returns_decideEntry job.block job.shape entry d hd
    rw [hqueue] at h
    obtain ⟨hentry, hrest⟩ := List.forall_mem_cons.1 h
    rcases List.mem_append.1 he with he | he
    · exact hrest e he
    · cases d with
      | dropped | cube _ | embeds _ _ _ => cases he
      | copies next => exact (hcopy next rfl e he).isBounded hentry
  embedded _ _ h := h

/-! ## Every expansion comes to an end -/

/-- An expansion step by step, from the block on: it ends with what the definition by levels gives,
with the same notes and the same failure if there is one, and on the way it stays within the bounds.
If it is not strict, it does not fail. -/
structure Ends (c : Catalog α) (limits : ExpansionLimits) (b : Block) (shapeId : String)
    (memo : ShapeMemo) : Prop where
  exists_run_eq : ∃ n, run c limits n (.entering b shapeId []) memo =
    (Progress.finished <$> expand c limits b shapeId) memo
  isBounded : ∀ {n p memo'}, (run c limits n (.entering b shapeId []) memo).run.value =
    .ok (p, memo') → p.IsBounded c limits
  succeeds : limits.strict = false →
    ∃ n cubes memo', (run c limits n (.entering b shapeId []) memo).run.value =
      .ok (.finished cubes, memo')

/-- Every expansion comes to an end, for every catalog, block, shape and bound: the steps are led to
the end by the definition by levels, and what each job keeps bounds the way. -/
theorem ends_of_entering (c : Catalog α) (limits : ExpansionLimits) (b : Block) (shapeId : String)
    (memo : ShapeMemo) : Ends c limits b shapeId memo := by
  have hleads : Leads c limits (pure (.entering b shapeId []))
      (expand c limits b shapeId >>= fun cubes => pure (.resume cubes [])) :=
    leads_nested rfl b shapeId
  obtain ⟨n, hn⟩ := hleads memo
  have hrun : run c limits n (.entering b shapeId []) memo =
      (Progress.finished <$> expand c limits b shapeId) memo := by
    rw [pure_bind] at hn
    rw [hn, map_eq_pure_bind]
    rfl
  refine ⟨⟨n, hrun⟩, ?_, ?_⟩
  · intro n p memo' hp
    have hkeeps := keeps_of_run (isKept_isBounded c limits) hp
    exact ⟨hkeeps.jobs, hkeeps.depth⟩
  · intro hstrict
    obtain ⟨v, hv⟩ := succeeds_expand (c := c) hstrict b shapeId memo
    refine ⟨n, v.1, v.2, ?_⟩
    rw [hrun, map_eq_pure_bind, Expanding.bind_apply, Deciding.run_bind_of_ok hv]
    rfl

/-- Two shapes copy each other, and a shelf shows a shelf that shows a shelf: of the shelves two are
expanded, and the third is refused. -/
theorem ends_of_entering_of_ring :
    let ring (shape : String) : Template Rat := { copy := some shape }
    let shelf : Template Rat := { copyBlock := some "entity.item" }
    let c : Catalog Rat :=
      { geometry := (Table.empty.insert "block" [ring "lid", shelf, {}]).insert "lid"
          [ring "block"] }
    let inner : Json :=
      .obj [("name", .str "shelf"), ("block_entity_data", .obj [("item", .str "shelf")])]
    let b : Block := { name := "shelf", entity := some [("item", inner)] }
    let limits : ExpansionLimits := { maxDepth := 1 }
    Ends c limits b "block" .empty ∧
      (expand c limits b "block" .empty).run.value.toOption.map (·.1.length) = some 2 := by
  intro ring shelf c inner b limits
  exact ⟨ends_of_entering c limits b "block" .empty, by decide +kernel⟩

end

end BlockModels
