/-!
# Diagnostics

What is wrong with the data but can be worked around is noted, not fatal. A computation that takes
notes is a value with its notes in the order in which they were taken (`Noted`); one that may also
fail is an `ExceptT Failure Noted`.
-/

namespace BlockModels

/-- How serious a note is. -/
inductive Severity where
  | info
  | warning
  | error
  deriving Repr, DecidableEq, Inhabited

/-- What kind of trouble a note is about. -/
inductive DiagnosticKind where
  /-- No rule names a shape for the block. -/
  | defaultShape
  /-- A shape has no geometry. -/
  | missingShape
  /-- A shape copies itself. -/
  | selfCopy
  /-- An embedded block cannot be followed. -/
  | copyBlock
  /-- Copies are nested too deep. -/
  | copyDepth
  /-- A condition or placeholder names a state that the block does not have. -/
  | missingState
  /-- A condition or placeholder cannot be read. -/
  | malformedExpression
  /-- A placeholder has no value. -/
  | missingArrayValue
  /-- A texture key has no entry. -/
  | missingTerrainTexture
  /-- A block has no texture for a face. -/
  | missingFace
  /-- A texture variant is out of range. -/
  | unknownVariant
  /-- A tint is not a colour. -/
  | invalidTint
  /-- A texture size is zero, negative or not finite. -/
  | invalidTextureSize
  /-- An image is missing or cannot be decoded. -/
  | imageLoad
  deriving Repr, DecidableEq, Inhabited

/-- A note. -/
structure Diagnostic where
  severity : Severity
  kind : DiagnosticKind
  message : String
  deriving Repr, DecidableEq, Inhabited

/-- The name of a severity in documents. -/
def Severity.name : Severity → String
  | .info => "info"
  | .warning => "warning"
  | .error => "error"

/-- The name of a kind in documents. -/
def DiagnosticKind.name : DiagnosticKind → String
  | .defaultShape => "default_shape"
  | .missingShape => "missing_shape"
  | .selfCopy => "self_copy"
  | .copyBlock => "copy_block"
  | .copyDepth => "copy_depth"
  | .missingState => "missing_state"
  | .malformedExpression => "malformed_expression"
  | .missingArrayValue => "missing_array_value"
  | .missingTerrainTexture => "missing_terrain_texture"
  | .missingFace => "missing_face"
  | .unknownVariant => "unknown_variant"
  | .invalidTint => "invalid_tint"
  | .invalidTextureSize => "invalid_texture_size"
  | .imageLoad => "image_load"

/-- Every kind once. -/
def DiagnosticKind.all : List DiagnosticKind :=
  [.defaultShape, .missingShape, .selfCopy, .copyBlock, .copyDepth, .missingState,
    .malformedExpression, .missingArrayValue, .missingTerrainTexture, .missingFace,
    .unknownVariant, .invalidTint, .invalidTextureSize, .imageLoad]

/-- The number of notes of a kind. -/
def countKind (notes : List Diagnostic) (kind : DiagnosticKind) : Nat :=
  notes.countP (·.kind == kind)

/-- The number of notes of a severity. -/
def countSeverity (notes : List Diagnostic) (severity : Severity) : Nat :=
  notes.countP (·.severity == severity)

/-- A value and the notes taken on the way to it. -/
structure Noted (β : Type) where
  value : β
  notes : List Diagnostic := []
  deriving Inhabited

namespace Noted

variable {β γ : Type}

instance : Monad Noted where
  pure a := ⟨a, []⟩
  bind a f :=
    let b := f a.value
    ⟨b.value, a.notes ++ b.notes⟩

@[simp] theorem value_pure (a : β) : (pure a : Noted β).value = a := rfl

@[simp] theorem notes_pure (a : β) : (pure a : Noted β).notes = [] := rfl

@[simp] theorem value_bind (a : Noted β) (f : β → Noted γ) :
    (a >>= f).value = (f a.value).value := rfl

@[simp] theorem notes_bind (a : Noted β) (f : β → Noted γ) :
    (a >>= f).notes = a.notes ++ (f a.value).notes := rfl

/-- Values with notes are the same if both parts are. -/
theorem ext {a b : Noted β} (hv : a.value = b.value) (hn : a.notes = b.notes) : a = b := by
  cases a; cases b; cases hv; cases hn; rfl

instance : LawfulMonad Noted :=
  LawfulMonad.mk' Noted
    (fun a => ext rfl (List.append_nil _))
    (fun _ _ => ext rfl (List.nil_append _))
    (fun _ _ _ => ext rfl (List.append_assoc _ _ _))

/-- What is computed for each item of a list does not depend on the others. -/
theorem value_mapM (f : β → Noted γ) (l : List β) :
    (l.mapM f).value = l.map fun b => (f b).value := by
  induction l with
  | nil => rfl
  | cons b rest ih => rw [List.mapM_cons, value_bind, value_bind, ih, value_pure, List.map_cons]

/-- The notes of computations for each item of a list. -/
theorem notes_mapM (f : β → Noted γ) (l : List β) :
    (l.mapM f).notes = l.flatMap fun b => (f b).notes := by
  induction l with
  | nil => rfl
  | cons b rest ih =>
    rw [List.mapM_cons, notes_bind, notes_bind, ih, notes_pure, List.append_nil, List.flatMap_cons]

/-- Whether all pass a test does not depend on the notes of it. -/
theorem value_allM (f : β → Noted Bool) (l : List β) :
    (l.allM f).value = l.all fun x => (f x).value := by
  induction l with
  | nil => rfl
  | cons x l ih =>
    rw [List.allM, value_bind, List.all_cons]
    cases (f x).value
    · rfl
    · exact ih

/-- Whether any passes a test does not depend on the notes of it. -/
theorem value_anyM (f : β → Noted Bool) (l : List β) :
    (l.anyM f).value = l.any fun x => (f x).value := by
  induction l with
  | nil => rfl
  | cons x l ih =>
    rw [List.anyM, value_bind, List.any_cons]
    cases (f x).value
    · exact ih
    · rfl

/-- Takes a note. -/
def note (severity : Severity) (kind : DiagnosticKind) (message : String) : Noted Unit :=
  ⟨(), [⟨severity, kind, message⟩]⟩

/-- Notes something that is as it may be. -/
def info (kind : DiagnosticKind) (message : String) : Noted Unit := note .info kind message

/-- Notes something that was worked around. -/
def warn (kind : DiagnosticKind) (message : String) : Noted Unit := note .warning kind message

/-- Notes something that is lost. -/
def error (kind : DiagnosticKind) (message : String) : Noted Unit := note .error kind message

end Noted

end BlockModels
