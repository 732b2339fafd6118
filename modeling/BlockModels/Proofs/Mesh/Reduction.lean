import BlockModels.Proofs.Mesh.Merging

/-!
# Nothing is left to merge

The loop that joins a cuboid with those of a list is bounded in `Cuboid.addTo` by the length of the
list. Here it is a relation without any bound (`Cuboid.Adds`, `Merges`): it starts over after every
joining, and stops when nothing in the list continues the grown cuboid or is continued by it. Each
joining takes a cuboid from the list, so the loop always stops, with the result of `mergeCuboids`
(`merges_foldl`). What it stops with has no two cuboids that can be joined
(`Merges.pairwise`), so merging it once more finds nothing to do. None of this depends on the
arithmetic, so it holds of floating-point numbers as they are.
-/

namespace BlockModels

namespace Cuboid

variable {α : Type} [Scalar α] {c d grown : Cuboid α} {merged rest out out' : List (Cuboid α)}

/-- Neither of two cuboids can be grown by the other. -/
structure AreSeparate (c d : Cuboid α) : Prop where
  forth : c.absorb? d = none
  back : d.absorb? c = none

theorem AreSeparate.symm (h : c.AreSeparate d) : d.AreSeparate c := ⟨h.back, h.forth⟩

/-- The search goes through the whole list, in both directions. -/
theorem joinFirst?_eq_none_iff : c.joinFirst? merged = none ↔ ∀ d ∈ merged, c.AreSeparate d := by
  induction merged with
  | nil => exact iff_of_true rfl (List.forall_mem_nil _)
  | cons d rest ih =>
    rw [joinFirst?, List.forall_mem_cons, ← ih]
    cases hjoin : (c.absorb? d).or (d.absorb? c) with
    | some grown =>
      refine iff_of_false (Option.some_ne_none _) fun hseparate => ?_
      rw [hseparate.1.forth, hseparate.1.back] at hjoin
      cases hjoin
    | none =>
      obtain ⟨hforth, hback⟩ := Option.or_eq_none_iff.1 hjoin
      rw [Option.map_eq_none_iff, and_iff_right ⟨hforth, hback⟩]

/-- The loop that adds a cuboid to a list: it starts over with every cuboid that it takes from the
list, and ends when there is none to take. -/
inductive Adds : Cuboid α → List (Cuboid α) → List (Cuboid α) → Prop
  | stop {c : Cuboid α} {merged : List (Cuboid α)} (h : c.joinFirst? merged = none) :
      Adds c merged (merged ++ [c])
  | again {c grown : Cuboid α} {merged rest out : List (Cuboid α)}
      (h : c.joinFirst? merged = some (grown, rest)) (hrest : Adds grown rest out) :
      Adds c merged out

/-- The loop ends, however long the list is. -/
theorem adds_add (merged : List (Cuboid α)) (c : Cuboid α) : Adds c merged (add merged c) := by
  induction hlen : merged.length generalizing merged c with
  | zero =>
    cases List.length_eq_zero_iff.1 hlen
    exact .stop rfl
  | succ n ih =>
    cases hjoin : c.joinFirst? merged with
    | none =>
      rw [add_of_joinFirst?_eq_none hjoin]
      exact .stop hjoin
    | some joined =>
      obtain ⟨d, hperm, -⟩ := exists_of_joinFirst? hjoin
      have hrest : joined.2.length = n := Nat.succ.inj (hperm.length_eq.symm.trans hlen)
      rw [add_of_joinFirst?_eq_some hjoin]
      exact .again hjoin (ih joined.2 joined.1 hrest)

/-- The loop ends in one way only. -/
theorem Adds.eq_add (h : Adds c merged out) : out = add merged c := by
  induction h with
  | stop h => exact (add_of_joinFirst?_eq_none h).symm
  | again h _ ih => rw [ih, add_of_joinFirst?_eq_some h]

/-- The list grows by one cuboid at most. -/
theorem Adds.length_le (h : Adds c merged out) : out.length ≤ merged.length + 1 := by
  induction h with
  | stop _ => rw [List.length_append, List.length_singleton]
  | again h _ ih =>
    obtain ⟨d, hperm, -⟩ := exists_of_joinFirst? h
    have hlen := hperm.length_eq
    rw [List.length_cons] at hlen
    omega

/-- A list stays separate, since the cuboid is added when it is separate from what is left. -/
theorem Adds.pairwise (h : Adds c merged out) (hmerged : merged.Pairwise AreSeparate) :
    out.Pairwise AreSeparate := by
  induction h with
  | stop h =>
    refine List.pairwise_append.2 ⟨hmerged, List.pairwise_singleton _ _, fun d hd c hc => ?_⟩
    rw [List.mem_singleton.1 hc]
    exact (joinFirst?_eq_none_iff.1 h d hd).symm
  | again h _ ih =>
    obtain ⟨d, hperm, -⟩ := exists_of_joinFirst? h
    exact ih ((hperm.pairwise_iff AreSeparate.symm).1 hmerged).of_cons

end Cuboid

open Cuboid

section

variable {α : Type} [Scalar α] {cs merged out : List (Cuboid α)}

/-- The loop over all cuboids: each is added to what the ones before it have come to. -/
inductive Merges : List (Cuboid α) → List (Cuboid α) → List (Cuboid α) → Prop
  | done {merged : List (Cuboid α)} : Merges merged [] merged
  | next {c : Cuboid α} {merged more cs out : List (Cuboid α)} (h : Adds c merged more)
      (hrest : Merges more cs out) : Merges merged (c :: cs) out

theorem merges_foldl (merged cs : List (Cuboid α)) : Merges merged cs (cs.foldl add merged) := by
  induction cs generalizing merged with
  | nil => exact .done
  | cons c rest ih => exact .next (adds_add merged c) (ih _)

theorem Merges.eq_foldl (h : Merges merged cs out) : out = cs.foldl add merged := by
  induction h with
  | done => rfl
  | next h _ ih => rw [ih, h.eq_add, List.foldl_cons]

theorem Merges.length_le (h : Merges merged cs out) : out.length ≤ merged.length + cs.length := by
  induction h with
  | done => exact Nat.le_add_right _ _
  | next h _ ih =>
    have hlen := h.length_le
    rw [List.length_cons]
    omega

/-- What is merged cannot be merged any further. -/
theorem Merges.pairwise (h : Merges merged cs out) (hmerged : merged.Pairwise AreSeparate) :
    out.Pairwise AreSeparate := by
  induction h with
  | done => exact hmerged
  | next h _ ih => exact ih (h.pairwise hmerged)

/-- Cuboids that cannot be joined are listed as they are. -/
theorem foldl_add_of_pairwise (h : (merged ++ cs).Pairwise AreSeparate) :
    cs.foldl add merged = merged ++ cs := by
  induction cs generalizing merged with
  | nil => exact (List.append_nil _).symm
  | cons c rest ih =>
    have hseparate : ∀ d ∈ merged, c.AreSeparate d := fun d hd =>
      ((List.pairwise_append.1 h).2.2 d hd c List.mem_cons_self).symm
    rw [List.append_cons] at h
    rw [List.foldl_cons, add_of_joinFirst?_eq_none (joinFirst?_eq_none_iff.2 hseparate), ih h,
      ← List.append_cons]

/-- Merging has come to its end: the loop stops with this list and no other, which is not longer
than the first one, holds no two cuboids that can be joined, and stays as it is when it is merged
once more. -/
structure IsReduction (cs out : List (Cuboid α)) : Prop where
  merges_iff : ∀ out', Merges [] cs out' ↔ out' = out
  length_le : out.length ≤ cs.length
  pairwise : out.Pairwise AreSeparate
  mergeCuboids_eq : mergeCuboids out = out

/-- Merging always ends, and leaves nothing to merge. -/
theorem isReduction_mergeCuboids (cs : List (Cuboid α)) : IsReduction cs (mergeCuboids cs) := by
  have hmerges : Merges [] cs (mergeCuboids cs) := merges_foldl [] cs
  have hpairwise := hmerges.pairwise .nil
  exact {
    merges_iff := fun out' => ⟨fun h => h.eq_foldl, fun h => h ▸ hmerges⟩
    length_le := Nat.zero_add cs.length ▸ hmerges.length_le
    pairwise := hpairwise
    mergeCuboids_eq := foldl_add_of_pairwise hpairwise }

/-- A corner fills up late: its cuboid joins the third, and what this makes continues the first. -/
example :
    let unit (x y : Rat) : Cuboid Rat := ⟨⟨x, y, 0⟩, ⟨1, 1, 1⟩⟩
    mergeCuboids [⟨⟨0, 0, 0⟩, ⟨2, 1, 1⟩⟩, unit 3 3, unit 0 1, unit 1 1] =
      [unit 3 3, ⟨⟨0, 0, 0⟩, ⟨2, 2, 1⟩⟩] := by
  decide +kernel

end

end BlockModels
