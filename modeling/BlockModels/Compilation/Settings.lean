import BlockModels.Bounds
import BlockModels.Atlas.Outline
import BlockModels.Expansion.Basic

/-!
# Settings of a run

What a run may be told: the scale of the geometry, how far copies may go, at which opacities the
atlas is written, and whether outlines are drawn on it.
-/

namespace BlockModels

/-- The settings of a run. -/
structure Settings (α : Type) where
  scale : α
  limits : ExpansionLimits := {}
  /-- The opacity of the one image that is made if no levels are given. -/
  opacity : α
  /-- The opacities of the images that are made. -/
  levels : Option (List α) := none
  outline : Option (Outline α) := none
  deriving Inhabited

namespace Settings

variable {α : Type} [Scalar α]

/-- Nothing is changed. -/
def standard : Settings α := { scale := 1, opacity := 1 }

/-- The opacities of the images that are made. -/
def opacities (s : Settings α) : List α := s.levels.getD [s.opacity]

/-- Reads settings from data; what is missing is as usual. -/
def ofJson? (j : Json) : Option (Settings Float) := do
  let f ← j.fields?
    ["scale", "strict", "max_copy_depth", "texture_opacity", "opacity_levels", "outline"]
  let usual : Settings Float := .standard
  return {
    scale := ← f.withDefault? "scale" Json.float? usual.scale
    limits := {
      strict := ← f.withDefault? "strict" Json.bool? usual.limits.strict
      maxDepth :=
        ← f.withDefault? "max_copy_depth" (Json.nat? maxUnsigned64) usual.limits.maxDepth }
    opacity := ← f.withDefault? "texture_opacity" Json.float? usual.opacity
    levels := ← f.optional? "opacity_levels" (Json.list? Json.float?)
    outline := ← f.optional? "outline" Outline.ofJson? }

end Settings

end BlockModels
