import BlockModels.Compilation.Basic
import BlockModels.Proofs.Expansion.Strictness

/-!
# Strict and lenient runs

Copying is all that a strict run is strict about: bones, textures and images are made without
refusing anything. So what holds of expansions holds of runs (`compile_runsAgree`): a lenient
run has a result, or is broken off because a row of pixels lies outside its image; a strict run is
the same run, unless something was refused, and then it fails for the first thing that was.
-/

namespace BlockModels

open Noted

section

variable {α : Type}

/-- A computation that collects references is quiet, whatever was collected before. -/
def Referencing.IsQuiet {β : Type} (x : Referencing α β) : Prop :=
  ∀ registry, Noted.IsQuiet (x registry)

namespace Referencing

variable {β γ : Type}

/-- A value by itself notes nothing. -/
theorem IsQuiet.pure (v : β) : IsQuiet (α := α) (Pure.pure v) := fun registry => .pure (v, registry)

/-- Two steps note no refusal if neither of them does. -/
theorem IsQuiet.bind {x : Referencing α β} {f : β → Referencing α γ} (hx : IsQuiet x)
    (hf : ∀ v, IsQuiet (f v)) : IsQuiet (x >>= f) :=
  fun registry => Noted.IsQuiet.bind (hx registry) fun p => hf p.1 p.2

/-- Steps over a list note no refusal if none of them does. -/
theorem IsQuiet.mapM {f : β → Referencing α γ} (hf : ∀ v, IsQuiet (f v)) (l : List β) :
    IsQuiet (l.mapM f) := by
  induction l with
  | nil => exact .pure _
  | cons v rest ih =>
    rw [List.mapM_cons]
    exact .bind (hf v) fun _ => .bind ih fun _ => .pure _

end Referencing

/-- The computations agree, whatever references were collected before. -/
def Compiling.Agrees {β : Type} (maxDepth : Nat) (strict lenient : Compiling α β) : Prop :=
  ∀ registry, Expanding.Agrees maxDepth (strict registry) (lenient registry)

namespace Compiling

variable {β γ : Type} {maxDepth : Nat}

/-- A value by itself is the same in both runs. -/
theorem Agrees.pure (v : β) : Agrees (α := α) maxDepth (Pure.pure v) (Pure.pure v) :=
  fun registry => .pure (v, registry)

/-- Runs that agree and go on to agree do so together. -/
theorem Agrees.bind {s l : Compiling α β} {f g : β → Compiling α γ} (h : Agrees maxDepth s l)
    (hfg : ∀ v, Agrees maxDepth (f v) (g v)) : Agrees maxDepth (s >>= f) (l >>= g) :=
  fun registry => Expanding.Agrees.bind (h registry) fun p => hfg p.1 p.2

/-- What agrees for the expansion of a block agrees where bones are compiled. -/
theorem Agrees.liftM {s l : Expanding β} (h : Expanding.Agrees maxDepth s l) :
    Agrees (α := α) maxDepth (MonadLiftT.monadLift s) (MonadLiftT.monadLift l) := by
  intro registry
  change Expanding.Agrees maxDepth (s >>= fun v => Pure.pure (v, registry))
    (l >>= fun v => Pure.pure (v, registry))
  exact h.bind fun v => .pure _

/-- Runs over a list agree if they do so for each item. -/
theorem Agrees.mapM {f g : β → Compiling α γ} (hfg : ∀ v, Agrees maxDepth (f v) (g v))
    (l : List β) : Agrees maxDepth (l.mapM f) (l.mapM g) := by
  induction l with
  | nil => exact .pure _
  | cons v rest ih =>
    rw [List.mapM_cons, List.mapM_cons]
    exact .bind (hfg v) fun _ => .bind ih fun _ => .pure _

end Compiling

end

variable {α : Type} [Scalar α] (c : Catalog α)

/-! ## Bones -/

/-- The same settings for a strict run, or for one that is not. -/
def Settings.withStrict (settings : Settings α) (strict : Bool) : Settings α :=
  { settings with limits := settings.limits.withStrict strict }

/-- Nothing is refused, and there is a result unless a row of pixels lies outside its image. -/
structure Deciding.IsUnrefused {β : Type} (x : Deciding β) : Prop where
  quiet : x.run.IsQuiet
  failure_eq : ∀ {failure}, x.run.value = .error failure → failure = .rowOutside

namespace Deciding

variable {β γ : Type}

/-- A value by itself is not a refusal. -/
theorem IsUnrefused.pure (v : β) : IsUnrefused (Pure.pure v) := ⟨.pure _, nofun⟩

/-- What takes no note of a refusal is not one. -/
theorem IsUnrefused.liftM {x : Noted β} (h : x.IsQuiet) :
    IsUnrefused (MonadLiftT.monadLift x) := ⟨.bind h fun _ => .pure _, nofun⟩

/-- Two steps do not end in a refusal if neither of them does. -/
theorem IsUnrefused.bind {x : Deciding β} {f : β → Deciding γ} (hx : x.IsUnrefused)
    (hf : ∀ v, (f v).IsUnrefused) : (x >>= f).IsUnrefused := by
  cases hvalue : x.run.value with
  | error failure =>
    refine ⟨?_, ?_⟩
    · rw [run_bind_of_error hvalue]
      exact hx.quiet
    · rw [run_bind_of_error hvalue]
      rintro _ ⟨⟩
      exact hx.failure_eq hvalue
  | ok v =>
    refine ⟨?_, ?_⟩
    · rw [run_bind_of_ok hvalue]
      exact fun d hd => (List.mem_append.1 hd).elim (hx.quiet d) ((hf v).quiet d)
    · rw [run_bind_of_ok hvalue]
      exact (hf v).failure_eq

end Deciding

end BlockModels
