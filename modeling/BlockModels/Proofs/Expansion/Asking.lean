import BlockModels.Proofs.Expansion.Refinement

/-!
# What asking for shapes leaves behind

The shapes that were asked for are remembered, and that a block has the default shape is noted only
when its name is asked for the first time. Nothing else of an expansion depends on what was asked
before (`Expanding.IsSteady`): it has the same outcome, asks for the same names, and takes the same
notes of its own, whatever is remembered, as long as that is what the rules say.
-/

namespace BlockModels

section

variable {α : Type} (c : Catalog α)

/-- What is remembered when some names are asked for. -/
def ShapeMemo.asked (memo : ShapeMemo) (names : List String) : ShapeMemo :=
  names.foldl (fun memo name => memo.insert name (c.shapeOf name)) memo

/-- The note that a name has the default shape, if no rule gives it one. -/
def Catalog.shapeNotes (name : String) : List Diagnostic :=
  if (c.shapeRule? name).isSome then []
  else (Noted.info .defaultShape
    ("No shape rule for " ++ name ++ ", using " ++ defaultShape)).notes

/-- The notes on names that are asked for the first time. -/
def ShapeMemo.freshNotes (memo : ShapeMemo) : List String → List Diagnostic
  | [] => []
  | name :: rest =>
    (if memo.contains name then [] else c.shapeNotes name) ++
      freshNotes (memo.insert name (c.shapeOf name)) rest

namespace ShapeMemo

variable {c} {memo : ShapeMemo}

/-- What is remembered stays faithful, whatever is asked for. -/
theorem IsFaithful.asked (h : memo.IsFaithful c) (names : List String) :
    (memo.asked c names).IsFaithful c := by
  induction names generalizing memo with
  | nil => exact h
  | cons name rest ih => exact ih (h.insert name)

/-- Names that are asked for after others are added to what is remembered then. -/
theorem asked_append (names more : List String) :
    memo.asked c (names ++ more) = (memo.asked c names).asked c more := List.foldl_append

/-- Names that are asked for after others are fresh if none of them asked before. -/
theorem freshNotes_append (names more : List String) : memo.freshNotes c (names ++ more) =
    memo.freshNotes c names ++ (memo.asked c names).freshNotes c more := by
  induction names generalizing memo with
  | nil => rfl
  | cons name rest ih =>
    rw [List.cons_append, freshNotes, freshNotes, ih, List.append_assoc]
    rfl

/-- What is remembered already does not change. -/
theorem IsFaithful.insert_eq (h : memo.IsFaithful c) {name shape : String}
    (hget : memo.get? name = some shape) : memo.insert name (c.shapeOf name) = memo := by
  refine Table.ext_get? fun name' => ?_
  rw [Table.get?_insert]
  split
  next heq => rw [heq, hget, h name shape hget]
  · rfl

/-- Remembering a name does not change whether another is remembered. -/
theorem contains_insert_of_ne {memo : ShapeMemo} {m n : String} (h : n ≠ m) (shape : String) :
    (memo.insert m shape).contains n = memo.contains n := by
  rw [Table.contains, Table.get?_insert, if_neg h, Table.contains]

/-- Two names are remembered in either order. -/
theorem insert_comm {memo : ShapeMemo} {m n : String} (h : m ≠ n) (shape shape' : String) :
    (memo.insert m shape).insert n shape' = (memo.insert n shape').insert m shape := by
  refine Table.ext_get? fun name => ?_
  simp only [Table.get?_insert]
  split
  next hn => rw [if_neg fun hm => h (hm.symm.trans hn)]
  · rfl

/-- The order of the names makes no difference for the notes. -/
theorem perm_freshNotes {names names' : List String} (h : names.Perm names') :
    (memo.freshNotes c names).Perm (memo.freshNotes c names') := by
  induction h generalizing memo with
  | nil => exact .nil
  | cons name _ ih => exact .append_left _ ih
  | swap m n rest =>
    rw [freshNotes, freshNotes, freshNotes, freshNotes]
    by_cases hmn : m = n
    · rw [hmn]
    · rw [contains_insert_of_ne (Ne.symm hmn), contains_insert_of_ne hmn, insert_comm hmn]
      exact List.perm_append_comm_assoc _ _ _
  | trans _ _ ih ih' => exact ih.trans ih'

end ShapeMemo

end

namespace Expanding

variable {α β γ : Type} {c : Catalog α}

/-- With faithful memory the computation has this outcome, asks for these names, and takes these
notes of its own. -/
structure Steady (c : Catalog α) (x : Expanding β) (outcome : Except Failure β)
    (names : List String) (own : List Diagnostic) : Prop where
  value_eq : ∀ memo : ShapeMemo, memo.IsFaithful c →
    (x memo).run.value = outcome.map fun v => (v, memo.asked c names)
  perm_notes : ∀ memo : ShapeMemo, memo.IsFaithful c →
    (x memo).run.notes.Perm (own ++ memo.freshNotes c names)

/-- The outcome is that of a run that remembers nothing at first. -/
theorem Steady.value_runFresh {x : Expanding β} {outcome : Except Failure β} {names : List String}
    {own : List Diagnostic} (h : Steady c x outcome names own) : x.runFresh.value = outcome := by
  have hvalue : (x.run .empty).run.value = _ := h.value_eq .empty ShapeMemo.isFaithful_empty
  rw [Expanding.runFresh, Noted.value_bind, hvalue]
  cases outcome <;> rfl

/-- What the computation does depends on what is remembered in no other way. -/
def IsSteady (c : Catalog α) (x : Expanding β) : Prop :=
  ∃ outcome names own, Steady c x outcome names own

/-- A value asks for no names and takes no notes. -/
theorem Steady.pure (v : β) : Steady c (Pure.pure v) (.ok v) [] [] :=
  ⟨fun _ _ => rfl, fun _ _ => .nil⟩

/-- After a computation that succeeds comes what its value leads to; names and notes are those of
both. -/
theorem Steady.bind_ok {x : Expanding β} {f : β → Expanding γ} {v : β}
    {outcome : Except Failure γ} {names more : List String} {own others : List Diagnostic}
    (hx : Steady c x (.ok v) names own) (hf : Steady c (f v) outcome more others) :
    Steady c (x >>= f) outcome (names ++ more) (own ++ others) := by
  have hrun : ∀ memo : ShapeMemo, memo.IsFaithful c → ((x >>= f) memo).run =
      ⟨(f v (memo.asked c names)).run.value,
        (x memo).run.notes ++ (f v (memo.asked c names)).run.notes⟩ := fun memo h => by
    rw [bind_apply, Deciding.run_bind_of_ok (hx.value_eq memo h)]
  refine ⟨fun memo h => ?_, fun memo h => ?_⟩
  · rw [hrun memo h, ShapeMemo.asked_append]
    exact hf.value_eq _ (h.asked names)
  · rw [hrun memo h, ShapeMemo.freshNotes_append]
    have hperm := (hx.perm_notes memo h).append (hf.perm_notes _ (h.asked names))
    refine hperm.trans ?_
    rw [List.append_assoc, List.append_assoc]
    exact .append_left _ (List.perm_append_comm_assoc _ _ _)

/-- After a computation that fails comes nothing. -/
theorem Steady.bind_error {x : Expanding β} {f : β → Expanding γ} {e : Failure}
    {names : List String} {own : List Diagnostic} (hx : Steady c x (.error e) names own) :
    Steady c (x >>= f) (.error e) names own := by
  have hrun : ∀ memo : ShapeMemo, memo.IsFaithful c →
      ((x >>= f) memo).run = ⟨.error e, (x memo).run.notes⟩ := fun memo h => by
    rw [bind_apply, Deciding.run_bind_of_error (hx.value_eq memo h)]
  refine ⟨fun memo h => ?_, fun memo h => ?_⟩
  · rw [hrun memo h]
    rfl
  · rw [hrun memo h]
    exact hx.perm_notes memo h

/-- A value is steady. -/
theorem IsSteady.pure (v : β) : IsSteady c (Pure.pure v) := ⟨_, _, _, .pure v⟩

/-- Steady computations after each other are steady, whether the first fails or not. -/
theorem IsSteady.bind {x : Expanding β} {f : β → Expanding γ} (hx : IsSteady c x)
    (hf : ∀ v, IsSteady c (f v)) : IsSteady c (x >>= f) := by
  obtain ⟨outcome, names, own, hx⟩ := hx
  cases outcome with
  | error e => exact ⟨_, _, _, hx.bind_error⟩
  | ok v =>
    obtain ⟨_, _, _, hf⟩ := hf v
    exact ⟨_, _, _, hx.bind_ok hf⟩

/-- A decision asks for no names. -/
theorem steady_ofDeciding (x : Deciding β) :
    Steady c (ofDeciding x) x.run.value [] x.run.notes := by
  have hrun : ∀ memo : ShapeMemo, (ofDeciding x memo).run =
      ⟨x.run.value.map fun v => (v, memo), x.run.notes⟩ := by
    intro memo
    rw [ofDeciding]
    cases hvalue : x.run.value with
    | error e => exact Deciding.run_bind_of_error hvalue
    | ok v =>
      rw [Deciding.run_bind_of_ok hvalue]
      exact Noted.ext rfl (List.append_nil _)
  refine ⟨fun memo _ => ?_, fun memo _ => ?_⟩
  · rw [hrun memo]
    rfl
  · rw [hrun memo]
    exact .of_eq (List.append_nil _).symm

/-- A decision is steady. -/
theorem IsSteady.ofDeciding (x : Deciding β) : IsSteady c (ofDeciding x) :=
  ⟨_, _, _, steady_ofDeciding x⟩

/-- Looking for the shape of a block asks for its name, and has no other notes than the fresh
one. -/
theorem steady_resolveShape (blockName : String) :
    Steady c (.ofLookup (c.resolveShape blockName)) (.ok (c.shapeOf (stripNamespace blockName)))
      [stripNamespace blockName] [] := by
  have hrun : ∀ memo : ShapeMemo, memo.IsFaithful c →
      c.resolveShape blockName memo =
        ⟨(c.shapeOf (stripNamespace blockName), memo.asked c [stripNamespace blockName]),
          memo.freshNotes c [stripNamespace blockName]⟩ := by
    intro memo h
    simp only [Catalog.resolveShape, lookUpShape, ShapeMemo.asked, List.foldl_cons, List.foldl_nil,
      ShapeMemo.freshNotes, List.append_nil]
    split
    next shape hget =>
      rw [h.insert_eq hget, h _ shape hget, Table.contains, hget]
      rfl
    next hget =>
      rw [Table.contains, hget, Catalog.shapeNotes, Catalog.shapeOf]
      split
      next shape hrule =>
        rw [hrule]
        rfl
      next hrule =>
        rw [hrule]
        rfl
  refine ⟨fun memo h => ?_, fun memo h => ?_⟩
  · exact congrArg (fun p : Noted (String × ShapeMemo) => Except.ok p.value) (hrun memo h)
  · have hnotes := congrArg Noted.notes (hrun memo h)
    exact .of_eq ((List.append_nil _).trans hnotes)

/-- Asking for a shape is no exception. -/
theorem IsSteady.resolveShape (blockName : String) :
    IsSteady c (.ofLookup (c.resolveShape blockName)) := ⟨_, _, _, steady_resolveShape blockName⟩

end Expanding

/-! ## Expansions -/

section

variable {α : Type} [Scalar α] {c : Catalog α} {limits : ExpansionLimits}
  {expander : Option (BlockExpander α)}

open Expanding

/-- Doing an entry is steady, if expanding embedded blocks is. -/
theorem isSteady_expandEntry (h : ∀ expand ∈ expander, ∀ b shapeId, IsSteady c (expand b shapeId))
    (b : Block) (shape : String) (entry : Entry α) :
    IsSteady c (expandEntry c limits expander b shape entry) := by
  refine .bind (.ofDeciding _) fun d => ?_
  cases d with
  | dropped => exact .pure _
  | cube cube => exact .pure _
  | copies next => exact .pure _
  | embeds host found offset =>
    cases expander with
    | none => exact .ofDeciding _
    | some expand =>
      exact .bind (.resolveShape _) fun shape => .bind (h expand rfl _ shape) fun _ => .pure _

/-- Doing a level is steady, by induction on its entries. -/
theorem isSteady_expandLevel (h : ∀ expand ∈ expander, ∀ b shapeId, IsSteady c (expand b shapeId))
    (b : Block) (shape : String) (entries : List (Entry α)) :
    IsSteady c (expandLevel c limits expander b shape entries) := by
  induction entries with
  | nil => exact .pure _
  | cons entry rest ih =>
    exact .bind (isSteady_expandEntry h b shape entry) fun _ => .bind ih fun _ => .pure _

/-- Doing all levels is steady, by induction on the links that are left. -/
theorem isSteady_expandLevels (h : ∀ expand ∈ expander, ∀ b shapeId, IsSteady c (expand b shapeId))
    (b : Block) (shape : String) (links : Nat) (entries : List (Entry α)) :
    IsSteady c (expandLevels c limits expander b shape links entries) := by
  induction links generalizing entries with
  | zero => exact isSteady_expandLevel h b shape entries
  | succ links ih =>
    refine .bind (isSteady_expandLevel h b shape entries) fun here => ?_
    split
    · exact .pure _
    · exact .bind (ih here.next) fun _ => .pure _

/-- Expanding a block is steady, if expanding embedded blocks is. -/
theorem isSteady_expandWith (h : ∀ expand ∈ expander, ∀ b shapeId, IsSteady c (expand b shapeId))
    (b : Block) (shapeId : String) : IsSteady c (expandWith c limits expander b shapeId) := by
  refine .bind (.ofDeciding _) fun geometry => ?_
  cases geometry with
  | none => exact .pure _
  | some geometry => exact .bind (isSteady_expandLevels h b _ _ _) fun _ => .pure _

/-- Expanding a block is steady, by induction on the nestings. -/
theorem isSteady_expandNested (levels : Nat) (b : Block) (shapeId : String) :
    IsSteady c (expandNested c limits levels b shapeId) := by
  induction levels generalizing b shapeId with
  | zero =>
    exact isSteady_expandWith (fun expand h => absurd h (Option.not_mem_none expand)) b shapeId
  | succ levels ih =>
    refine isSteady_expandWith ?_ b shapeId
    rintro _ ⟨⟩
    exact ih

/-- An expansion depends on what was asked before in no other way. -/
theorem isSteady_expand (c : Catalog α) (limits : ExpansionLimits) (b : Block) (shapeId : String) :
    IsSteady c (expand c limits b shapeId) := isSteady_expandNested _ b shapeId

end

end BlockModels
