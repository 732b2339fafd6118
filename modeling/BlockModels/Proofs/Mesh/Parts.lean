import BlockModels.Proofs.Mesh.Reduction

/-!
# What merged cuboids are made of

A cuboid of a merged list was put together from cuboids of the list that was merged, by a joining
for each but one of them (`Cuboid.IsMadeOf`). The parts of all cuboids of the merged list are the
cuboids of the first list, each in one place (`exists_parts_mergeCuboids`). So what a joining keeps
holds of the merged list if it holds of the first one (`forall_mem_mergeCuboids`), and what a cuboid
shows at a point can be looked up at one of its parts.
-/

namespace BlockModels

variable {α : Type} [Scalar α]

namespace Cuboid

/-- The cuboid was put together from these, joining by joining. -/
inductive IsMadeOf : Cuboid α → List (Cuboid α) → Prop
  | whole (c : Cuboid α) : IsMadeOf c [c]
  | joined {c d grown : Cuboid α} {parts parts' : List (Cuboid α)} (hc : IsMadeOf c parts)
      (hd : IsMadeOf d parts') (h : c.absorb? d = some grown) : IsMadeOf grown (parts ++ parts')

/-- What a joining keeps holds of a cuboid if it holds of its parts. -/
theorem IsMadeOf.of_forall {P : Cuboid α → Prop}
    (hgrown : ∀ {c d grown}, P c → P d → c.absorb? d = some grown → P grown) {c : Cuboid α}
    {parts : List (Cuboid α)} (h : c.IsMadeOf parts) (hparts : ∀ d ∈ parts, P d) : P c := by
  induction h with
  | whole c => exact hparts c List.mem_cons_self
  | joined _ _ h ihc ihd =>
    obtain ⟨hfirst, hsecond⟩ := List.forall_mem_append.1 hparts
    exact hgrown (ihc hfirst) (ihd hsecond) h

/-- The parts of two joined cuboids together, in whatever order they were joined. -/
theorem IsMadeOf.exists_perm {c d grown : Cuboid α} {parts parts' : List (Cuboid α)}
    (hc : c.IsMadeOf parts) (hd : d.IsMadeOf parts')
    (h : c.absorb? d = some grown ∨ d.absorb? c = some grown) :
    ∃ all, grown.IsMadeOf all ∧ all.Perm (parts' ++ parts) := by
  rcases h with h | h
  · exact ⟨parts ++ parts', .joined hc hd h, List.perm_append_comm⟩
  · exact ⟨parts' ++ parts, .joined hd hc h, .refl _⟩

/-- The cuboid that is added takes its parts along. -/
theorem Adds.exists_parts {c : Cuboid α} {merged out : List (Cuboid α)} (h : Adds c merged out)
    {own : List (Cuboid α)} (hc : c.IsMadeOf own) {parts : List (List (Cuboid α))}
    (hmerged : List.Forall₂ IsMadeOf merged parts) :
    ∃ parts', List.Forall₂ IsMadeOf out parts' ∧ parts'.flatten.Perm (parts.flatten ++ own) := by
  induction h generalizing own parts with
  | stop _ =>
    refine ⟨parts ++ [own], List.rel_append hmerged (.cons hc .nil), ?_⟩
    rw [List.flatten_append, List.flatten_singleton]
  | again h _ ih =>
    obtain ⟨d, hperm, hjoined⟩ := exists_of_joinFirst? h
    obtain ⟨_, hforall, hparts⟩ := List.perm_comp_forall₂ hperm.symm hmerged
    cases hforall with
    | cons hd hrest =>
      obtain ⟨all, hall, hperm'⟩ := hc.exists_perm hd hjoined
      obtain ⟨parts', hout, hflatten⟩ := ih hall hrest
      have hown := (hflatten.trans (hperm'.append_left _)).trans
        (List.perm_append_comm_assoc _ _ own)
      rw [← List.append_assoc] at hown
      exact ⟨parts', hout, hown.trans (hparts.flatten.append_right own)⟩

end Cuboid

open Cuboid

theorem Merges.exists_parts {merged cs out : List (Cuboid α)} (h : Merges merged cs out)
    {parts : List (List (Cuboid α))} (hmerged : List.Forall₂ IsMadeOf merged parts) :
    ∃ parts', List.Forall₂ IsMadeOf out parts' ∧ parts'.flatten.Perm (parts.flatten ++ cs) := by
  induction h generalizing parts with
  | done => exact ⟨parts, hmerged, by rw [List.append_nil]⟩
  | next h _ ih =>
    obtain ⟨more, hmore, hperm⟩ := h.exists_parts (.whole _) hmerged
    obtain ⟨parts', hout, hperm'⟩ := ih hmore
    refine ⟨parts', hout, hperm'.trans ?_⟩
    rw [List.append_cons]
    exact hperm.append_right _

/-- The cuboids of a list are the parts of those that they are merged to, each in one place. -/
theorem exists_parts_mergeCuboids (cs : List (Cuboid α)) :
    ∃ parts, List.Forall₂ IsMadeOf (mergeCuboids cs) parts ∧ parts.flatten.Perm cs :=
  (merges_foldl [] cs).exists_parts .nil

/-- Every merged cuboid is made of cuboids of the list. -/
theorem exists_parts_of_mem {cs : List (Cuboid α)} {m : Cuboid α} (hm : m ∈ mergeCuboids cs) :
    ∃ parts, m.IsMadeOf parts ∧ ∀ c ∈ parts, c ∈ cs := by
  obtain ⟨parts, hforall, hperm⟩ := exists_parts_mergeCuboids cs
  obtain ⟨i, hi, rfl⟩ := List.mem_iff_getElem.1 hm
  have hi' : i < parts.length := hforall.length_eq ▸ hi
  exact ⟨parts[i], hforall.get hi hi', fun c hc =>
    hperm.subset (List.mem_flatten.2 ⟨parts[i], List.getElem_mem hi', hc⟩)⟩

/-- What a joining keeps holds of all merged cuboids if it holds of all cuboids of the list. -/
theorem forall_mem_mergeCuboids {P : Cuboid α → Prop}
    (hgrown : ∀ {c d grown}, P c → P d → c.absorb? d = some grown → P grown) {cs : List (Cuboid α)}
    (hcs : ∀ c ∈ cs, P c) : ∀ m ∈ mergeCuboids cs, P m := by
  intro m hm
  obtain ⟨parts, hmade, hparts⟩ := exists_parts_of_mem hm
  exact hmade.of_forall hgrown fun c hc => hcs c (hparts c hc)

end BlockModels
