import BlockModels.Catalog.Shape
import Mathlib.Data.List.Dedup
import Mathlib.Data.List.Induction

/-!
# Shapes that are remembered

A block's shape is looked up once for each name and remembered from then on. Whoever asks does not
see this: every answer is the shape that the rules give to the name (`ShapeRules.Gives`), whatever
was asked before. All that the memory changes is how often the rules are asked: once for each name,
so that there is one note for each name without a rule (`remembers_shapes`). The patterns may be any
predicates on names here; what a catalog has are such rules (`Catalog.shapeRules`).
-/

namespace BlockModels

/-- Shapes by exact names and, for other names, by predicates in the order in which they are
tried. -/
structure ShapeRules where
  exact : Table String
  patterns : List ((String → Bool) × String)

/-- The rules of a catalog. -/
def Catalog.shapeRules {α : Type} (c : Catalog α) : ShapeRules :=
  ⟨c.shapesByName, c.shapesByPattern.map fun p => (p.1.isMatch, p.2)⟩

/-- The note on a name that has the default shape. -/
def defaultShapeNote (name : String) : Diagnostic :=
  ⟨.info, .defaultShape, "No shape rule for " ++ name ++ ", using " ++ defaultShape⟩

namespace ShapeRules

variable (r : ShapeRules)

/-- The name is not listed, and no pattern matches it. -/
def IsUnruled (name : String) : Prop :=
  r.exact.get? name = none ∧ ∀ p ∈ r.patterns, p.1 name = false

instance : DecidablePred r.IsUnruled := fun name =>
  inferInstanceAs (Decidable (r.exact.get? name = none ∧ ∀ p ∈ r.patterns, p.1 name = false))

/-- The shape of a name without namespace: the one that is listed, and else that of the first
pattern that matches, and else the default. -/
inductive Gives (name : String) : String → Prop
  | exact {shape : String} : r.exact.get? name = some shape → Gives name shape
  | pattern {before after : List ((String → Bool) × String)} {p : (String → Bool) × String} :
      r.exact.get? name = none → r.patterns = before ++ p :: after →
      (∀ q ∈ before, q.1 name = false) → p.1 name = true → Gives name p.2
  | default : r.IsUnruled name → Gives name defaultShape

/-- The shape by a rule, if there is one. -/
def rule? (name : String) : Option String :=
  (r.exact.get? name).or ((r.patterns.find? fun p => p.1 name).map (·.2))

/-- The shape of a name without namespace. -/
def shapeOf (name : String) : String := (r.rule? name).getD defaultShape

/-- The rules of a catalog give what is looked up in it. -/
theorem rule?_shapeRules {α : Type} (c : Catalog α) : c.shapeRules.rule? = c.shapeRule? := by
  funext name
  rw [rule?, Catalog.shapeRule?, findPattern, Catalog.shapeRules, List.find?_map, Option.map_map]
  rfl

variable {r} {name shape : String}

/-- No rule is found exactly if the name has none. -/
theorem rule?_eq_none_iff : r.rule? name = none ↔ r.IsUnruled name := by
  rw [rule?, Option.or_eq_none_iff, Option.map_eq_none_iff, List.find?_eq_none, IsUnruled]
  simp only [Bool.not_eq_true]

/-- A rule that is found gives its shape: it is listed, or the first that matches. -/
theorem gives_of_rule? (h : r.rule? name = some shape) : r.Gives name shape := by
  rcases Option.or_eq_some_iff.1 h with hexact | ⟨hexact, hpattern⟩
  · exact .exact hexact
  · obtain ⟨p, hfind, rfl⟩ := Option.map_eq_some_iff.1 hpattern
    obtain ⟨hp, before, after, hsplit, hbefore⟩ := List.find?_eq_some_iff_append.1 hfind
    exact .pattern hexact hsplit (fun q hq => by simpa using hbefore q hq) hp

/-- There is exactly one shape that the rules give to a name. -/
theorem gives_iff : r.Gives name shape ↔ shape = r.shapeOf name := by
  rw [shapeOf]
  constructor
  · intro h
    cases h with
    | exact hexact => rw [rule?, hexact]; rfl
    | pattern hexact hsplit hbefore hp =>
      have hfind : r.patterns.find? (fun p => p.1 name) = some _ :=
        List.find?_eq_some_iff_append.2
          ⟨hp, _, _, hsplit, fun q hq => by simpa using hbefore q hq⟩
      rw [rule?, hexact, hfind]
      rfl
    | default hunruled => rw [rule?_eq_none_iff.2 hunruled]; rfl
  · rintro rfl
    cases hrule : r.rule? name with
    | some shape => exact gives_of_rule? hrule
    | none => exact .default (rule?_eq_none_iff.1 hrule)

/-! ## One call -/

variable (r) in
/-- What is remembered after some names were asked for. -/
def IsMemory (names : List String) (memo : ShapeMemo) : Prop :=
  ∀ name, memo.get? name = if name ∈ names then some (r.shapeOf name) else none

variable {names : List String} {memo : ShapeMemo}

/-- Nothing is remembered at first. -/
theorem isMemory_empty : r.IsMemory [] .empty := fun _ => rfl

/-- A name that is asked for is remembered with its shape. -/
theorem IsMemory.insert (h : r.IsMemory names memo) (name : String) :
    r.IsMemory (names ++ [name]) (memo.insert name (r.shapeOf name)) := by
  intro name'
  rw [Table.get?_insert, h name']
  by_cases heq : name' = name
  · simp [heq]
  · simp [heq]

/-- Nothing changes when a name is asked for that was asked for before. -/
theorem IsMemory.of_mem (h : r.IsMemory names memo) (hname : name ∈ names) :
    r.IsMemory (names ++ [name]) memo := by
  intro name'
  have hmem : name' ∈ names ++ [name] ↔ name' ∈ names := by
    rw [List.mem_append, List.mem_singleton]
    exact ⟨fun h => h.elim id fun heq => heq ▸ hname, .inl⟩
  rw [h name', if_congr hmem rfl rfl]

variable (r) in
/-- The notes that one more name takes. -/
def freshNotes (names : List String) (name : String) : List Diagnostic :=
  if name ∉ names ∧ r.IsUnruled name then [defaultShapeNote name] else []

/-- A call answers what the rules give, and takes a note the first time only. -/
theorem IsMemory.lookUpShape (h : r.IsMemory names memo) (call : String) :
    ∃ memo', r.IsMemory (names ++ [stripNamespace call]) memo' ∧
      lookUpShape r.rule? call memo =
        ⟨(r.shapeOf (stripNamespace call), memo'), r.freshNotes names (stripNamespace call)⟩ := by
  generalize hname : stripNamespace call = name
  simp only [BlockModels.lookUpShape, hname, h name, freshNotes]
  by_cases hmem : name ∈ names
  · refine ⟨memo, h.of_mem hmem, ?_⟩
    rw [if_pos hmem, if_neg fun hfresh => hfresh.1 hmem]
    rfl
  · rw [if_neg hmem]
    refine ⟨_, h.insert name, ?_⟩
    rw [shapeOf]
    cases hrule : r.rule? name with
    | some shape =>
      rw [if_neg fun hfresh => by simp [rule?_eq_none_iff.2 hfresh.2] at hrule]
      rfl
    | none =>
      rw [if_pos ⟨hmem, rule?_eq_none_iff.1 hrule⟩]
      rfl

/-! ## Runs of calls -/

/-- The answers to calls one after the other, and what is remembered after them. -/
def answers (rule? : String → Option String) (calls : List String) :
    Noted (List String × ShapeMemo) :=
  (calls.mapM (BlockModels.lookUpShape rule?)).run .empty

/-- The last call is answered from what is remembered after the others. -/
theorem answers_concat (rule? : String → Option String) (calls : List String) (call : String) :
    answers rule? (calls ++ [call]) = do
      let before ← answers rule? calls
      let last ← BlockModels.lookUpShape rule? call before.2
      return (before.1 ++ [last.1], last.2) := by
  simp only [answers, List.mapM_append, List.mapM_cons, List.mapM_nil, StateT.run_bind, pure_bind,
    bind_assoc, StateT.run_pure]
  rfl

variable (r) in
/-- What a run of calls comes to: each answer is the shape that the rules give to the name without
namespace and depends on nothing else; remembered are the names that were asked for, each once, with
their shapes; and there is one note for each of them without a rule. -/
structure Remembers (calls : List String) (run : Noted (List String × ShapeMemo)) : Prop where
  shapes : List.Forall₂ (fun call shape => ∀ s, r.Gives (stripNamespace call) s ↔ s = shape)
    calls run.value.1
  memo : ∀ name shape, run.value.2.get? name = some shape ↔
    name ∈ calls.map stripNamespace ∧ r.Gives name shape
  size : run.value.2.size = (calls.map stripNamespace).dedup.length
  notes : ∃ names : List String, names.Nodup ∧
    (∀ name, name ∈ names ↔ name ∈ calls.map stripNamespace ∧ r.IsUnruled name) ∧
    run.notes = names.map defaultShapeNote
  count : countKind run.notes .defaultShape =
    ((calls.map stripNamespace).dedup.filter fun name => decide (r.IsUnruled name)).length

variable (r) in
/-- The state of a run after some calls. -/
structure IsAfter (calls : List String) (run : Noted (List String × ShapeMemo)) : Prop where
  shapes : run.value.1 = calls.map fun call => r.shapeOf (stripNamespace call)
  memory : r.IsMemory (calls.map stripNamespace) run.value.2
  notes : ∃ names : List String, names.Nodup ∧
    (∀ name, name ∈ names ↔ name ∈ calls.map stripNamespace ∧ r.IsUnruled name) ∧
    run.notes = names.map defaultShapeNote

/-- After every run of calls, the answers are right and each name is noted once, by induction on the
calls. -/
theorem isAfter_answers (calls : List String) : r.IsAfter calls (answers r.rule? calls) := by
  induction calls using List.reverseRecOn with
  | nil => exact ⟨rfl, isMemory_empty, [], .nil, fun name => by simp, rfl⟩
  | append_singleton calls call ih =>
    obtain ⟨hshapes, hmemory, names, hnodup, hmem, hnotes⟩ := ih
    obtain ⟨memo', hmemory', hcall⟩ := hmemory.lookUpShape call
    have hrun : answers r.rule? (calls ++ [call]) =
        ⟨((answers r.rule? calls).value.1 ++ [r.shapeOf (stripNamespace call)], memo'),
          (answers r.rule? calls).notes ++
            r.freshNotes (calls.map stripNamespace) (stripNamespace call)⟩ := by
      rw [answers_concat]
      refine Noted.ext ?_ ?_
      · rw [Noted.value_bind, Noted.value_bind, hcall]
        rfl
      · rw [Noted.notes_bind, Noted.notes_bind, hcall, Noted.notes_pure, List.append_nil]
    rw [hrun]
    refine ⟨?_, ?_, ?_⟩
    · rw [hshapes, List.map_append]
      rfl
    · rw [List.map_append]
      exact hmemory'
    · rw [freshNotes, List.map_append, hnotes]
      split
      next hfresh =>
        refine ⟨names ++ [stripNamespace call], ?_, fun name => ?_, by rw [List.map_append]; rfl⟩
        · rw [List.nodup_append]
          refine ⟨hnodup, List.nodup_singleton _, fun a ha b hb heq => hfresh.1 ?_⟩
          rw [← List.mem_singleton.1 hb, ← heq]
          exact ((hmem a).1 ha).1
        · simp only [List.mem_append, hmem, List.map_cons, List.map_nil, List.mem_singleton,
            or_and_right]
          exact or_congr_right ⟨fun h => ⟨h, h ▸ hfresh.2⟩, And.left⟩
      next hfresh =>
        refine ⟨names, hnodup, fun name => ?_, List.append_nil _⟩
        simp only [List.mem_append, hmem, List.map_cons, List.map_nil, List.mem_singleton]
        refine and_congr_left fun hunruled => ⟨.inl, fun h => h.elim id fun heq => ?_⟩
        exact by_contra fun hnew => hfresh ⟨heq ▸ hnew, heq ▸ hunruled⟩

/-- There are as many notes of this kind as names that take one. -/
theorem countKind_map_defaultShapeNote (names : List String) :
    countKind (names.map defaultShapeNote) .defaultShape = names.length := by
  rw [countKind, List.countP_map]
  exact List.countP_eq_length.2 fun _ _ => rfl

/-- Each name is remembered once. -/
theorem IsMemory.size_eq (h : r.IsMemory names memo) : memo.size = names.dedup.length := by
  have hperm : memo.keys.Perm names.dedup := by
    refine (List.perm_ext_iff_of_nodup memo.nodup_keys names.nodup_dedup).2 fun name => ?_
    rw [← Table.contains_iff, Table.contains, h name, List.mem_dedup]
    split <;> simp_all
  have hlength := hperm.length_eq
  rwa [Table.keys, List.length_map] at hlength

/-- The state after some calls, in terms of the rules. -/
theorem IsAfter.remembers {calls : List String} {run : Noted (List String × ShapeMemo)}
    (h : r.IsAfter calls run) : r.Remembers calls run where
  shapes := by
    rw [h.shapes, List.forall₂_map_right_iff, List.forall₂_same]
    exact fun call _ s => gives_iff
  memo name shape := by
    rw [h.memory name, gives_iff]
    split
    next hmem => simp [hmem, eq_comm]
    next hmem => simp [hmem]
  size := h.memory.size_eq
  notes := h.notes
  count := by
    obtain ⟨names, hnodup, hmem, hnotes⟩ := h.notes
    rw [hnotes, countKind_map_defaultShapeNote]
    refine ((List.perm_ext_iff_of_nodup hnodup ((List.nodup_dedup _).filter _)).2
      fun name => ?_).length_eq
    rw [hmem, List.mem_filter, List.mem_dedup, decide_eq_true_eq]

end ShapeRules

/-- Asking with a memory comes to what the rules give, call by call, under any rules; in particular
under those of a catalog. -/
theorem remembers_shapes :
    (∀ (r : ShapeRules) (calls : List String),
      r.Remembers calls (ShapeRules.answers r.rule? calls)) ∧
    ∀ {α : Type} (c : Catalog α) (calls : List String),
      c.shapeRules.Remembers calls ((calls.mapM c.resolveShape).run .empty) := by
  refine ⟨fun r calls => (ShapeRules.isAfter_answers calls).remembers, fun c calls => ?_⟩
  have hanswers := (ShapeRules.isAfter_answers (r := c.shapeRules) calls).remembers
  rw [ShapeRules.rule?_shapeRules] at hanswers
  exact hanswers

end BlockModels
