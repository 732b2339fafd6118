import BlockModels.Proofs.Expansion.Outcomes
import BlockModels.Proofs.Expansion.Quiet

/-!
# Strict and lenient expansions

The same expansion is done strictly and leniently. As long as nothing is refused the two are the
same; the first refusal ends the strict one with a failure, where the lenient one takes a note and
goes on (`Deciding.Agrees`). Two computations put together agree if their parts do
(`Deciding.Agrees.bind`), so it is enough to look at the single place where something is refused
(`Deciding.agrees_refuse`), and to follow the definitions from there up (`agrees_expand`). A lenient
expansion always has a result.
-/

namespace BlockModels

/-- The same limits for a strict run, or for one that is not. -/
def ExpansionLimits.withStrict (limits : ExpansionLimits) (strict : Bool) : ExpansionLimits :=
  { limits with strict }

/-- The failure of a strict run and the note of a lenient one are about the same. -/
inductive Failure.Matches (maxDepth : Nat) : Failure → Diagnostic → Prop
  | selfCopy (shape message : String) :
    Matches maxDepth (.selfCopy shape) ⟨.error, .selfCopy, message⟩
  | copyDepth (shape message : String) :
    Matches maxDepth (.copyDepth shape maxDepth) ⟨.error, .copyDepth, message⟩

namespace Deciding

variable {β γ : Type} {maxDepth : Nat}

/-- The lenient computation has a result. The strict one is the same if nothing was refused, and
else it fails for the first refusal. -/
structure Agrees (maxDepth : Nat) (strict lenient : Deciding β) : Prop where
  succeeds : lenient.Succeeds
  eq_of_none : lenient.run.notes.find? Diagnostic.isRefusal = none → strict.run = lenient.run
  fails_of_some : ∀ {d}, lenient.run.notes.find? Diagnostic.isRefusal = some d →
    ∃ failure, strict.run.value = .error failure ∧ failure.Matches maxDepth d

/-- A value is decided strictly and leniently alike. -/
theorem Agrees.pure (v : β) : Agrees maxDepth (Pure.pure v) (Pure.pure v) where
  succeeds := .pure v
  eq_of_none _ := rfl
  fails_of_some := nofun

/-- Where nothing can be refused, it makes no difference whether the run is strict. -/
theorem Agrees.of_isQuiet {x : Noted β} (h : x.IsQuiet) :
    Agrees maxDepth (liftM x) (liftM x) where
  succeeds := .liftM x
  eq_of_none _ := rfl
  fails_of_some hd := by
    have hnotes : ((liftM x : Deciding β).run).notes = x.notes := List.append_nil _
    rw [hnotes, h.find?_eq_none] at hd
    cases hd

/-- Decisions agree if their parts do: a refusal in the first part ends the strict one. -/
theorem Agrees.bind {s l : Deciding β} {f g : β → Deciding γ} (h : Agrees maxDepth s l)
    (hfg : ∀ v, Agrees maxDepth (f v) (g v)) : Agrees maxDepth (s >>= f) (l >>= g) := by
  obtain ⟨v, hv⟩ := h.succeeds
  have hrest := hfg v
  have hnotes : (l >>= g).run.notes = l.run.notes ++ (g v).run.notes := by
    rw [run_bind_of_ok hv]
  cases hfind : l.run.notes.find? Diagnostic.isRefusal with
  | some d =>
    -- The strict run is over before the second part.
    obtain ⟨failure, hfailure, hmatches⟩ := h.fails_of_some hfind
    refine ⟨h.succeeds.bind fun v => (hfg v).succeeds, ?_, ?_⟩
    · rw [hnotes, List.find?_append, hfind]
      exact nofun
    · rw [hnotes, List.find?_append, hfind, run_bind_of_error hfailure]
      rintro _ ⟨⟩
      exact ⟨failure, rfl, hmatches⟩
  | none =>
    have hs := h.eq_of_none hfind
    have hrun : (s >>= f).run = ⟨(f v).run.value, l.run.notes ++ (f v).run.notes⟩ := by
      rw [run_bind_of_ok (hs ▸ hv), hs]
    refine ⟨h.succeeds.bind fun v => (hfg v).succeeds, ?_, ?_⟩
    · rw [hnotes, List.find?_append, hfind, Option.none_or, hrun, run_bind_of_ok hv]
      intro hnone
      rw [hrest.eq_of_none hnone]
    · rw [hnotes, List.find?_append, hfind, Option.none_or, hrun]
      exact hrest.fails_of_some

/-- What is refused is a failure or a note about the same. -/
theorem agrees_refuse (limits : ExpansionLimits) {failure : Failure} {kind : DiagnosticKind}
    {message : String} (standIn : β) (hkind : kind.isRefusal = true)
    (h : failure.Matches maxDepth ⟨.error, kind, message⟩) :
    Agrees maxDepth (refuse (limits.withStrict true) failure kind message standIn)
      (refuse (limits.withStrict false) failure kind message standIn) := by
  have hfind : (refuse (limits.withStrict false) failure kind message standIn).run.notes.find?
      Diagnostic.isRefusal = some ⟨.error, kind, message⟩ := List.find?_cons_of_pos hkind
  refine ⟨.bind (.liftM _) fun _ => .pure _, ?_, ?_⟩
  · rw [hfind]
    exact nofun
  · rw [hfind]
    rintro _ ⟨⟩
    exact ⟨failure, rfl, h⟩

end Deciding

open Deciding

/-- The computations agree, whatever shapes were asked for before. -/
def Expanding.Agrees {β : Type} (maxDepth : Nat) (strict lenient : Expanding β) : Prop :=
  ∀ memo, Deciding.Agrees maxDepth (strict memo) (lenient memo)

namespace Expanding

variable {β γ : Type} {maxDepth : Nat}

/-- A value is reached strictly and leniently alike. -/
theorem Agrees.pure (v : β) : Agrees maxDepth (Pure.pure v) (Pure.pure v) :=
  fun memo => .pure (v, memo)

/-- Computations agree if their parts do. -/
theorem Agrees.bind {s l : Expanding β} {f g : β → Expanding γ} (h : Agrees maxDepth s l)
    (hfg : ∀ v, Agrees maxDepth (f v) (g v)) : Agrees maxDepth (s >>= f) (l >>= g) :=
  fun memo => Deciding.Agrees.bind (h memo) fun p => hfg p.1 p.2

/-- Decisions that agree do so within an expansion. -/
theorem Agrees.ofDeciding {s l : Deciding β} (h : Deciding.Agrees maxDepth s l) :
    Agrees maxDepth (ofDeciding s) (ofDeciding l) :=
  fun _ => h.bind fun _ => .pure _

/-- Where nothing is refused, both are the same. -/
theorem Agrees.ofNoted {x : Noted β} (h : x.IsQuiet) : Agrees maxDepth (ofNoted x) (ofNoted x) :=
  .ofDeciding (.of_isQuiet h)

/-- Looking for shapes is the same if nothing is refused, whatever is remembered. -/
theorem Agrees.ofLookup {x : ShapeLookup β} (h : ∀ memo, (x memo).IsQuiet) :
    Agrees maxDepth (ofLookup x) (ofLookup x) := fun memo => .of_isQuiet (h memo)

end Expanding

/-! ## The parts of an expansion -/

section

variable {α : Type} [Scalar α] (c : Catalog α) (limits : ExpansionLimits)

/-- Copying a shape is refused in the same cases. -/
theorem agrees_copyTemplates (b : Block) (parent : Template α) (target : String)
    (chain : List String) :
    Deciding.Agrees limits.maxDepth (copyTemplates c (limits.withStrict true) b parent target chain)
      (copyTemplates c (limits.withStrict false) b parent target chain) := by
  simp only [copyTemplates]
  split
  · exact agrees_refuse limits [] rfl (.selfCopy _ _)
  have hdepth : ∀ strict, (limits.withStrict strict).maxDepth = limits.maxDepth := fun _ => rfl
  simp only [hdepth]
  split
  · exact agrees_refuse limits [] rfl (.copyDepth _ _)
  split
  · exact .bind (.of_isQuiet (.note rfl)) fun _ => .pure _
  · exact .pure _

/-- A template is decided alike, up to what copying refuses. -/
theorem agrees_decideEntry (b : Block) (shape : String) (entry : Entry α) :
    Deciding.Agrees limits.maxDepth (decideEntry c (limits.withStrict true) b shape entry)
      (decideEntry c (limits.withStrict false) b shape entry) := by
  refine .bind (.of_isQuiet (quiet_overrideBlock b _)) fun override => ?_
  refine .bind (.of_isQuiet (quiet_conditionHolds _ _)) fun holds => ?_
  split
  · exact .pure _
  refine .bind (.of_isQuiet (quiet_fillTemplate _ _)) fun t => ?_
  split
  · exact .bind (agrees_copyTemplates c limits b _ _ _) fun _ => .pure _
  split
  · exact .bind (.of_isQuiet (quiet_findEmbedded c _ _)) fun _ => .pure _
  · exact .pure _

/-- Embedding is refused for the same reason. -/
theorem agrees_refuseEmbedding {β : Type} (host : String) (found : Block) (standIn : β) :
    Deciding.Agrees limits.maxDepth
      (refuseEmbedding (limits.withStrict true) host found standIn)
      (refuseEmbedding (limits.withStrict false) host found standIn) :=
  agrees_refuse limits standIn rfl (.copyDepth _ _)

/-- Two expanders for embedded blocks, or none. -/
inductive ExpandersAgree (maxDepth : Nat) :
    Option (BlockExpander α) → Option (BlockExpander α) → Prop
  | none : ExpandersAgree maxDepth none none
  | some {strict lenient : BlockExpander α}
      (h : ∀ b shapeId, Expanding.Agrees maxDepth (strict b shapeId) (lenient b shapeId)) :
      ExpandersAgree maxDepth (some strict) (some lenient)

variable {c limits} {s l : Option (BlockExpander α)}

/-- An entry is done alike, if embedded blocks are expanded alike. -/
theorem agrees_expandEntry (h : ExpandersAgree limits.maxDepth s l) (b : Block) (shape : String)
    (entry : Entry α) :
    Expanding.Agrees limits.maxDepth (expandEntry c (limits.withStrict true) s b shape entry)
      (expandEntry c (limits.withStrict false) l b shape entry) := by
  refine .bind (.ofDeciding (agrees_decideEntry c limits b shape entry)) fun d => ?_
  cases d with
  | dropped => exact .pure _
  | cube cube => exact .pure _
  | copies next => exact .pure _
  | embeds host found offset =>
    cases h with
    | none => exact .ofDeciding (agrees_refuseEmbedding limits host found _)
    | some h =>
      refine .bind (.ofLookup (quiet_resolveShape c _)) fun shape => ?_
      exact .bind (h _ shape) fun _ => .pure _

/-- A level is done alike, by induction on its entries. -/
theorem agrees_expandLevel (h : ExpandersAgree limits.maxDepth s l) (b : Block) (shape : String)
    (entries : List (Entry α)) :
    Expanding.Agrees limits.maxDepth (expandLevel c (limits.withStrict true) s b shape entries)
      (expandLevel c (limits.withStrict false) l b shape entries) := by
  induction entries with
  | nil => exact .pure _
  | cons entry rest ih =>
    exact .bind (agrees_expandEntry h b shape entry) fun _ => .bind ih fun _ => .pure _

/-- All levels are done alike, by induction on the links that are left. -/
theorem agrees_expandLevels (h : ExpandersAgree limits.maxDepth s l) (b : Block) (shape : String)
    (links : Nat) (entries : List (Entry α)) :
    Expanding.Agrees limits.maxDepth
      (expandLevels c (limits.withStrict true) s b shape links entries)
      (expandLevels c (limits.withStrict false) l b shape links entries) := by
  induction links generalizing entries with
  | zero => exact agrees_expandLevel h b shape entries
  | succ links ih =>
    refine .bind (agrees_expandLevel h b shape entries) fun here => ?_
    split
    · exact .pure _
    · exact .bind (ih here.next) fun _ => .pure _

/-- A block is expanded alike, if embedded blocks are. -/
theorem agrees_expandWith (h : ExpandersAgree limits.maxDepth s l) (b : Block)
    (shapeId : String) :
    Expanding.Agrees limits.maxDepth (expandWith c (limits.withStrict true) s b shapeId)
      (expandWith c (limits.withStrict false) l b shapeId) := by
  refine .bind (.ofNoted (quiet_shapeGeometry c b _)) fun geometry => ?_
  cases geometry with
  | none => exact .pure _
  | some geometry => exact .bind (agrees_expandLevels h b _ _ _) fun _ => .pure _

/-- A block is expanded alike, by induction on the nestings. -/
theorem agrees_expandNested (levels : Nat) (b : Block) (shapeId : String) :
    Expanding.Agrees limits.maxDepth (expandNested c (limits.withStrict true) levels b shapeId)
      (expandNested c (limits.withStrict false) levels b shapeId) := by
  induction levels generalizing b shapeId with
  | zero => exact agrees_expandWith .none b shapeId
  | succ levels ih => exact agrees_expandWith (.some ih) b shapeId

/-- Strict and lenient expansions agree, whatever is copied and embedded. -/
theorem agrees_expand (c : Catalog α) (limits : ExpansionLimits) (b : Block) (shapeId : String) :
    Expanding.Agrees limits.maxDepth (expand c (limits.withStrict true) b shapeId)
      (expand c (limits.withStrict false) b shapeId) := agrees_expandNested _ b shapeId

/-- An expansion that is not strict has a result. -/
theorem succeeds_expand (h : limits.strict = false) (b : Block) (shapeId : String)
    (memo : ShapeMemo) : Deciding.Succeeds (expand c limits b shapeId memo) := by
  have hlimits : limits.withStrict false = limits := by rw [ExpansionLimits.withStrict, ← h]
  exact hlimits ▸ (agrees_expand c limits b shapeId memo).succeeds

end

end BlockModels
