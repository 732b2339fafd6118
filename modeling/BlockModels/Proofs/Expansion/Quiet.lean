import BlockModels.Expansion.Basic

/-!
# Notes that are no refusals

A note that a shape copies itself, or that copies are nested too deep, stands for something that a
strict run refuses (`Diagnostic.isRefusal`). A computation without such notes is quiet
(`Noted.IsQuiet`). All of an expansion that only takes notes is quiet: evaluating conditions,
filling in placeholders, and looking for shapes, geometry and embedded blocks.
-/

namespace BlockModels

/-- A strict run refuses what such notes are about. -/
def DiagnosticKind.isRefusal : DiagnosticKind → Bool
  | .selfCopy | .copyDepth => true
  | _ => false

/-- The note stands for something that a strict run refuses. -/
def Diagnostic.isRefusal (d : Diagnostic) : Bool := d.kind.isRefusal

namespace Noted

variable {β γ : Type} {x : Noted β} {f : β → Noted γ}

/-- No note is about something that a strict run refuses. -/
def IsQuiet (x : Noted β) : Prop := ∀ d ∈ x.notes, d.isRefusal = false

/-- In quiet notes, no refusal is found. -/
theorem IsQuiet.find?_eq_none (h : x.IsQuiet) : x.notes.find? Diagnostic.isRefusal = none :=
  List.find?_eq_none.2 fun d hd => Bool.eq_false_iff.1 (h d hd)

/-- A value without notes is quiet. -/
theorem IsQuiet.pure (b : β) : IsQuiet (Pure.pure b) := List.forall_mem_nil _

/-- A note that is no refusal is quiet. -/
theorem IsQuiet.note {severity : Severity} {kind : DiagnosticKind} {message : String}
    (h : kind.isRefusal = false) : (Noted.note severity kind message).IsQuiet := by
  intro d hd
  rw [List.mem_singleton.1 hd]
  exact h

/-- Quiet computations after each other are quiet. -/
theorem IsQuiet.bind (hx : x.IsQuiet) (hf : ∀ b, (f b).IsQuiet) : (x >>= f).IsQuiet := by
  intro d hd
  rcases List.mem_append.1 hd with hd | hd
  · exact hx d hd
  · exact hf x.value d hd

/-- Quiet computations over a list are quiet. -/
theorem IsQuiet.mapM (hf : ∀ b, (f b).IsQuiet) (l : List β) : (l.mapM f).IsQuiet := by
  induction l with
  | nil => exact .pure _
  | cons b rest ih =>
    rw [List.mapM_cons]
    exact .bind (hf b) fun _ => .bind ih fun _ => .pure _

/-- Looking for an item that passes a quiet test is quiet. -/
theorem IsQuiet.anyM {f : β → Noted Bool} (hf : ∀ b, (f b).IsQuiet) (l : List β) :
    (l.anyM f).IsQuiet := by
  induction l with
  | nil => exact .pure _
  | cons b rest ih =>
    refine .bind (hf b) fun found => ?_
    cases found with
    | false => exact ih
    | true => exact .pure _

/-- Looking whether all items pass a quiet test is quiet. -/
theorem IsQuiet.allM {f : β → Noted Bool} (hf : ∀ b, (f b).IsQuiet) (l : List β) :
    (l.allM f).IsQuiet := by
  induction l with
  | nil => exact .pure _
  | cons b rest ih =>
    refine .bind (hf b) fun holds => ?_
    cases holds with
    | false => exact .pure _
    | true => exact ih

end Noted

open Noted

/-! ## Conditions and placeholders -/

/-- A term may be unreadable, but is no refusal. -/
theorem quiet_evaluateTerm (b : Block) (term : List Char) :
    (Condition.evaluateTerm b term).IsQuiet := by
  intro d hd
  rw [Condition.evaluateTerm] at hd
  cases hout : Condition.termOutcome b (Text.trimChars term) with
  | holds r =>
    rw [hout] at hd
    cases hd
  | malformed e =>
    rw [hout] at hd
    cases List.mem_singleton.1 hd
    rfl
  | missing entity name =>
    rw [hout] at hd
    cases List.mem_singleton.1 hd
    rfl

/-- Evaluating a condition is quiet. -/
theorem quiet_evaluate (b : Block) (expression : String) :
    (Condition.evaluate b expression).IsQuiet := by
  simp only [Condition.evaluate]
  split
  · exact .bind (.note rfl) fun _ => .pure _
  · exact .anyM (fun terms => .allM (quiet_evaluateTerm b) terms) _

/-- A placeholder without a value is no refusal. -/
theorem quiet_orDefault (b : Block) (placeholder : List Char) {kind : DiagnosticKind}
    (h : kind.isRefusal = false) (value : Option String) (fallback : Option (List Char)) :
    (Placeholder.orDefault b placeholder kind value fallback).IsQuiet := by
  unfold Placeholder.orDefault
  split
  · exact .pure _
  · exact .pure _
  · exact .bind (.note h) fun _ => .pure _

/-- Looking up a placeholder is quiet. -/
theorem quiet_substitute (b : Block) (arrays : Option Placeholder.Arrays)
    (placeholder : List Char) : (Placeholder.substitute b arrays placeholder).IsQuiet := by
  simp only [Placeholder.substitute]
  split
  · exact quiet_orDefault b placeholder rfl _ _
  · exact quiet_orDefault b placeholder rfl _ _
  · exact .bind (.note rfl) fun _ => .pure _
  · exact .bind (.note rfl) fun _ => .pure _

/-- Filling in the pieces of a text is quiet, by induction on the pieces. -/
theorem quiet_fill (b : Block) (arrays : Option Placeholder.Arrays) (template done : String)
    (pieces : List Placeholder.Piece) :
    (Placeholder.fill b arrays template done pieces).IsQuiet := by
  induction pieces generalizing done with
  | nil => exact .pure _
  | cons piece rest ih =>
    cases piece with
    | text cs => exact ih _
    | unclosed cs => exact .bind (.note rfl) fun _ => .pure _
    | placeholder cs =>
      refine .bind (quiet_substitute b arrays cs) fun s => ?_
      cases s with
      | wholeText s => exact .pure _
      | value s => exact ih _

/-- Filling in a text is quiet. -/
theorem quiet_interpolate (b : Block) (template : String) (arrays : Option Placeholder.Arrays) :
    (Placeholder.interpolate b template arrays).IsQuiet := quiet_fill _ _ _ _ _

/-! ## Templates -/

/-- Filling in the value of a state is quiet. -/
theorem quiet_fillState (b : Block) (arrays : Option Placeholder.Arrays) (v : StateValue) :
    (fillState b arrays v).IsQuiet := by
  cases v with
  | bool | int => exact .pure _
  | str s =>
    rw [fillState]
    split
    · refine .bind (quiet_interpolate b s arrays) fun text => ?_
      split <;> exact .pure _
    · exact .pure _

/-- Filling in a text, if there is one, is quiet. -/
theorem quiet_fillText (b : Block) (arrays : Option Placeholder.Arrays) (s : Option String) :
    (fillText b arrays s).IsQuiet := by
  cases s with
  | none => exact .pure _
  | some s =>
    rw [fillText]
    split
    · exact .bind (quiet_interpolate b s arrays) fun _ => .pure _
    · exact .pure _

variable {α : Type}

/-- A template's block with its own states is found quietly. -/
theorem quiet_overrideBlock (b : Block) (t : Template α) : (overrideBlock b t).IsQuiet := by
  rw [overrideBlock]
  split
  · exact .pure _
  · refine .bind (.mapM (fun e => ?_) _) fun _ => .pure _
    exact .bind (quiet_fillState b t.arrays e.2) fun _ => .pure _

/-- Filling in the texts of a template is quiet. -/
theorem quiet_fillTemplate (b : Block) (t : Template α) : (fillTemplate b t).IsQuiet :=
  .bind (quiet_fillText _ _ _) fun _ => .bind (quiet_fillText _ _ _) fun _ =>
    .bind (quiet_fillText _ _ _) fun _ => .pure _

/-- Deciding whether a template applies is quiet. -/
theorem quiet_conditionHolds (b : Block) (condition : Option String) :
    (conditionHolds b condition).IsQuiet := by
  cases condition with
  | none => exact .pure _
  | some expression => exact quiet_evaluate b expression

/-! ## Shapes and embedded blocks -/

/-- Looking for the shape of a block is quiet: the default is no refusal. -/
theorem quiet_resolveShape (c : Catalog α) (name : String) (memo : ShapeMemo) :
    (c.resolveShape name memo).IsQuiet := by
  simp only [Catalog.resolveShape, lookUpShape]
  split
  · exact .pure _
  split
  · exact .pure _
  · exact .bind (.note rfl) fun _ => .pure _

/-- Looking for the geometry of a shape is quiet. -/
theorem quiet_shapeGeometry (c : Catalog α) (b : Block) (shape : String) :
    (shapeGeometry c b shape).IsQuiet := by
  rw [shapeGeometry]
  split
  · exact .pure _
  · exact .bind (.note rfl) fun _ => .pure _

/-- Looking for an embedded block is quiet. -/
theorem quiet_findEmbedded (c : Catalog α) (context : Block) (directive : String) :
    (findEmbedded c context directive).IsQuiet := by
  simp only [findEmbedded]
  split
  · exact .bind (.note rfl) fun _ => .pure _
  split
  · exact .bind (.note rfl) fun _ => .pure _
  · exact .pure _

end BlockModels
