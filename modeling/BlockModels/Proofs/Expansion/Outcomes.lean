import BlockModels.Expansion.Basic

/-!
# What a computation comes to

A computation that takes notes and may fail goes on with its next part if the first has a result,
and is over with the notes of the first part if it does not (`Deciding.run_bind_of_ok`,
`Deciding.run_bind_of_error`). What all its results have in common is said by `Deciding.Returns`
and, for one that also asks for shapes, by `Expanding.Returns`.
-/

namespace BlockModels

variable {β γ : Type}

namespace Deciding

variable {x : Deciding β} {f : β → Deciding γ} {P : β → Prop} {Q : γ → Prop}

/-- After a decision that succeeds comes the next, with its notes behind. -/
theorem run_bind_of_ok {v : β} (h : x.run.value = .ok v) :
    (x >>= f).run = ⟨(f v).run.value, x.run.notes ++ (f v).run.notes⟩ := by
  rw [ExceptT.run_bind]
  apply Noted.ext
  · rw [Noted.value_bind, h]
  · rw [Noted.notes_bind, h]

/-- After a decision that fails comes nothing, and its notes stay. -/
theorem run_bind_of_error {e : Failure} (h : x.run.value = .error e) :
    (x >>= f).run = ⟨.error e, x.run.notes⟩ := by
  rw [ExceptT.run_bind]
  apply Noted.ext
  · rw [Noted.value_bind, h]
    rfl
  · rw [Noted.notes_bind, h]
    exact List.append_nil _

/-- Every result has the property. -/
def Returns (x : Deciding β) (P : β → Prop) : Prop := ∀ v, x.run.value = .ok v → P v

/-- A value with the property returns it. -/
theorem Returns.pure {v : β} (h : P v) : Returns (Pure.pure v) P := by
  rintro _ ⟨⟩
  exact h

/-- Taking notes returns the value that they come with. -/
theorem Returns.liftM {x : Noted β} (h : P x.value) : Returns (MonadLiftT.monadLift x) P := by
  rintro _ ⟨⟩
  exact h

/-- What the first part returns may be used for the second. -/
theorem Returns.bind (hx : x.Returns P) (hf : ∀ v, P v → (f v).Returns Q) :
    (x >>= f).Returns Q := by
  intro w hw
  cases hvalue : x.run.value with
  | error e =>
    rw [run_bind_of_error hvalue] at hw
    cases hw
  | ok v =>
    rw [run_bind_of_ok hvalue] at hw
    exact hf v (hx v hvalue) w hw

/-- Where nothing is known of the first part. -/
theorem Returns.bind_of_forall (hf : ∀ v, (f v).Returns Q) : (x >>= f).Returns Q :=
  Returns.bind (P := fun _ => True) (fun _ _ => trivial) fun v _ => hf v

/-- There is a result. -/
def Succeeds (x : Deciding β) : Prop := ∃ v, x.run.value = .ok v

/-- A value is a result. -/
theorem Succeeds.pure (v : β) : Succeeds (Pure.pure v) := ⟨v, rfl⟩

/-- Taking notes does not fail. -/
theorem Succeeds.liftM (x : Noted β) : Succeeds (MonadLiftT.monadLift x) := ⟨x.value, rfl⟩

/-- Decisions that succeed do so after each other. -/
theorem Succeeds.bind (hx : x.Succeeds) (hf : ∀ v, (f v).Succeeds) : (x >>= f).Succeeds := by
  obtain ⟨v, hv⟩ := hx
  obtain ⟨w, hw⟩ := hf v
  exact ⟨w, by rw [run_bind_of_ok hv, hw]⟩

/-- What stands in for a thing that cannot be done. -/
theorem Returns.refuse {limits : ExpansionLimits} {failure : Failure} {kind : DiagnosticKind}
    {message : String} {standIn : β} (h : P standIn) :
    Returns (Deciding.refuse limits failure kind message standIn) P := by
  rw [Deciding.refuse]
  split
  · exact nofun
  · exact .bind_of_forall fun _ => .pure h

end Deciding

namespace Expanding

variable {x : Expanding β} {f : β → Expanding γ} {P : β → Prop} {Q : γ → Prop}

/-- The memo goes from the first part to the next. -/
theorem bind_apply (memo : ShapeMemo) : (x >>= f) memo = x memo >>= fun p => f p.1 p.2 := rfl

/-- Every result has the property, whatever shapes were asked for before. -/
def Returns (x : Expanding β) (P : β → Prop) : Prop :=
  ∀ memo, Deciding.Returns (x memo) fun p => P p.1

/-- A value with the property returns it, whatever is remembered. -/
theorem Returns.pure {v : β} (h : P v) : Returns (Pure.pure v) P :=
  fun _ => Deciding.Returns.pure h

/-- What the first part of an expansion returns may be used for the second. -/
theorem Returns.bind (hx : x.Returns P) (hf : ∀ v, P v → (f v).Returns Q) :
    (x >>= f).Returns Q :=
  fun memo => Deciding.Returns.bind (hx memo) fun p hp => hf p.1 hp p.2

/-- Where nothing is known of the first part of an expansion. -/
theorem Returns.bind_of_forall (hf : ∀ v, (f v).Returns Q) : (x >>= f).Returns Q :=
  fun _ => Deciding.Returns.bind_of_forall fun p => hf p.1 p.2

/-- A decision returns the same within an expansion. -/
theorem Returns.ofDeciding {x : Deciding β} (h : x.Returns P) : Returns (ofDeciding x) P :=
  fun _ => Deciding.Returns.bind h fun _ hv => Deciding.Returns.pure hv

/-- Notes within an expansion return the value that they come with. -/
theorem Returns.ofNoted {x : Noted β} (h : P x.value) : Returns (ofNoted x) P :=
  .ofDeciding (.liftM h)

end Expanding

end BlockModels
