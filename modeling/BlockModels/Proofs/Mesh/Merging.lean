import BlockModels.Mesh.Cuboid
import BlockModels.Proofs.Scalar.Rational
import Mathlib

/-!
# Merged cuboids fill the same space

A cuboid fills a half-open box of space (`Cuboid.region`). When one is extended by another that
continues it, its box is the two boxes put together, and no point is in both of them. So whatever
adds up over the two parts of an extended cuboid (`Cuboid.IsAdditive`) has the same sum before and
after a merging: the volume, and at every point of space the number of cuboids that fill it
(`fillCount`). From this number follow the covered part of space, its surface, and whether cuboids
overlap (`mergeCuboids_sameSpace`). This is exact arithmetic, and no extent is negative.
-/

namespace BlockModels

namespace Cuboid

section

variable {α : Type} [Scalar α] {c d grown : Cuboid α} {merged rest : List (Cuboid α)}

/-! ## The loop -/

/-- A cuboid is grown by one that continues it on an axis. -/
theorem exists_axis_of_absorb? (h : c.absorb? d = some grown) :
    ∃ axis, c.continuedBy d axis = true ∧ grown = c.extend d axis := by
  obtain ⟨axis, hfind, hgrown⟩ := Option.map_eq_some_iff.1 h
  exact ⟨axis, List.find?_some hfind, hgrown.symm⟩

/-- What is joined with `c` is taken from the list, and either continues `c` or is continued by it.
-/
theorem exists_of_joinFirst? (h : c.joinFirst? merged = some (grown, rest)) :
    ∃ d, merged.Perm (d :: rest) ∧ (c.absorb? d = some grown ∨ d.absorb? c = some grown) := by
  induction merged generalizing rest with
  | nil => cases h
  | cons d tail ih =>
    rw [joinFirst?] at h
    split at h
    next g hg =>
      cases h
      exact ⟨d, .refl _, (Option.or_eq_some_iff.1 hg).imp id And.right⟩
    next =>
      obtain ⟨⟨g, tail'⟩, htail, hout⟩ := Option.map_eq_some_iff.1 h
      cases hout
      obtain ⟨e, hperm, he⟩ := ih htail
      exact ⟨e, (hperm.cons d).trans (.swap e d _), he⟩

/-- A cuboid that can be joined leaves a shorter list, to which the grown cuboid is added. -/
theorem add_of_joinFirst?_eq_some (h : c.joinFirst? merged = some (grown, rest)) :
    add merged c = add rest grown := by
  obtain ⟨d, hperm, -⟩ := exists_of_joinFirst? h
  rw [add, hperm.length_eq, List.length_cons, addTo, h]
  rfl

/-- A cuboid that cannot be joined is put at the end. -/
theorem add_of_joinFirst?_eq_none (h : c.joinFirst? merged = none) :
    add merged c = merged ++ [c] := by
  rw [add]
  cases merged with
  | nil => rfl
  | cons d tail => rw [List.length_cons, addTo, h]

end

/-! ## What adds up -/

section

variable {α M : Type} [Scalar α] [AddCommMonoid M]

/-- The measure `f` of an extended cuboid is the sum over its two parts, among cuboids with the
property `P`, which the extended cuboid has too. -/
structure IsAdditive (P : Cuboid α → Prop) (f : Cuboid α → M) : Prop where
  grown : ∀ {c d grown}, P c → P d → c.absorb? d = some grown → P grown
  add : ∀ {c d grown}, P c → P d → c.absorb? d = some grown → f grown = f c + f d

variable {P : Cuboid α → Prop} {f : Cuboid α → M} {c grown : Cuboid α}
  {merged rest : List (Cuboid α)}

/-- A joining moves the measure of what it takes from the list to the grown cuboid. -/
theorem IsAdditive.of_joinFirst? (h : IsAdditive P f) (hmerged : ∀ d ∈ merged, P d) (hc : P c)
    (hjoin : c.joinFirst? merged = some (grown, rest)) :
    (∀ d ∈ rest, P d) ∧ P grown ∧ (rest.map f).sum + f grown = (merged.map f).sum + f c := by
  obtain ⟨d, hperm, hd⟩ := exists_of_joinFirst? hjoin
  have hPd : P d := hmerged d (hperm.mem_iff.2 List.mem_cons_self)
  have hgrown : P grown ∧ f grown = f d + f c := by
    rcases hd with hd | hd
    · exact ⟨h.grown hc hPd hd, (h.add hc hPd hd).trans (add_comm _ _)⟩
    · exact ⟨h.grown hPd hc hd, h.add hPd hc hd⟩
  refine ⟨fun e he => hmerged e (hperm.mem_iff.2 (List.mem_cons_of_mem d he)), hgrown.1, ?_⟩
  calc (rest.map f).sum + f grown
      = f d + (rest.map f).sum + f c := by rw [hgrown.2, ← add_assoc, add_comm (f d)]
    _ = (merged.map f).sum + f c := by rw [(hperm.map f).sum_eq, List.map_cons, List.sum_cons]

/-- Adding a cuboid to a list adds its measure, however often it is joined. -/
theorem IsAdditive.sum_add (h : IsAdditive P f) (hmerged : ∀ d ∈ merged, P d) (hc : P c) :
    (∀ d ∈ Cuboid.add merged c, P d) ∧
      ((Cuboid.add merged c).map f).sum = (merged.map f).sum + f c := by
  -- Every joining takes one from the list.
  induction hlen : merged.length generalizing merged c with
  | zero =>
    cases List.length_eq_zero_iff.1 hlen
    rw [add_of_joinFirst?_eq_none rfl]
    simpa using hc
  | succ n ih =>
    cases hjoin : c.joinFirst? merged with
    | none =>
      rw [add_of_joinFirst?_eq_none hjoin]
      exact ⟨List.forall_mem_append.2 ⟨hmerged, List.forall_mem_singleton.2 hc⟩, by simp⟩
    | some joined =>
      obtain ⟨grown, rest⟩ := joined
      obtain ⟨hrest, hgrown, hsum⟩ := h.of_joinFirst? hmerged hc hjoin
      obtain ⟨d, hperm, -⟩ := exists_of_joinFirst? hjoin
      have hlen' : rest.length = n := Nat.succ.inj (hperm.length_eq.symm.trans hlen)
      rw [add_of_joinFirst?_eq_some hjoin, ← hsum]
      exact ih hrest hgrown hlen'

/-- Adding cuboids one after the other adds their measures, by induction on them. -/
theorem IsAdditive.sum_foldl (h : IsAdditive P f) {cs : List (Cuboid α)} (hcs : ∀ c ∈ cs, P c)
    (hmerged : ∀ d ∈ merged, P d) :
    ((cs.foldl Cuboid.add merged).map f).sum = (merged.map f).sum + (cs.map f).sum := by
  induction cs generalizing merged with
  | nil => simp
  | cons c rest ih =>
    obtain ⟨hc, hrest⟩ := List.forall_mem_cons.1 hcs
    obtain ⟨hall, hsum⟩ := h.sum_add hmerged hc
    rw [List.foldl_cons, ih hrest hall, hsum, List.map_cons, List.sum_cons, add_assoc]

/-- Merging keeps the sum of what adds up over the parts of an extended cuboid. -/
theorem IsAdditive.sum_mergeCuboids (h : IsAdditive P f) {cs : List (Cuboid α)}
    (hcs : ∀ c ∈ cs, P c) : ((mergeCuboids cs).map f).sum = (cs.map f).sum := by
  rw [mergeCuboids, h.sum_foldl hcs (List.forall_mem_nil _), List.map_nil, List.sum_nil, zero_add]

end

/-! ## Two boxes put together -/

variable {c d grown : Cuboid Rat}

/-- A number lies between the beginning and the end of a cuboid on an axis; the end is not part of
it. -/
def Spans (c : Cuboid Rat) (axis : Axis) (x : ℝ) : Prop :=
  (c.pos.get axis : ℝ) ≤ x ∧ x < (c.stop axis : ℝ)

/-- The points of space that a cuboid fills. -/
def region (c : Cuboid Rat) : Set (Axis → ℝ) := {p | ∀ axis, c.Spans axis (p axis)}

/-- A point is in a cuboid if each of its coordinates lies within it. -/
theorem mem_region {c : Cuboid Rat} {p : Axis → ℝ} :
    p ∈ c.region ↔ ∀ axis, c.Spans axis (p axis) := Iff.rfl

/-- No extent is negative. -/
def IsSized (c : Cuboid Rat) : Prop := ∀ axis, 0 ≤ c.size.get axis

/-- A property holds on every axis if it holds on one and on the two others. -/
theorem forall_axis_iff (axis : Axis) {p : Axis → Prop} :
    (∀ a, p a) ↔ p axis ∧ p axis.others.1 ∧ p axis.others.2 := by
  constructor
  · intro h
    exact ⟨h _, h _, h _⟩
  · rintro ⟨h, h₁, h₂⟩ a
    cases axis <;> cases a <;> assumption

/-- On its axis an extended cuboid is as long as both parts together. -/
theorem size_extend_self (c d : Cuboid Rat) (axis : Axis) :
    (c.extend d axis).size.get axis = c.size.get axis + d.size.get axis := by
  cases axis <;> rfl

/-- On the other axes an extended cuboid keeps its size. -/
theorem size_extend_of_ne {a axis : Axis} (h : a ≠ axis) (c d : Cuboid Rat) :
    (c.extend d axis).size.get a = c.size.get a :=
  Vec3.get_set_of_ne h _ _

/-- The size on the two other axes stays. -/
theorem size_extend_others (c d : Cuboid Rat) (axis : Axis) :
    (c.extend d axis).size.get axis.others.1 = c.size.get axis.others.1 ∧
      (c.extend d axis).size.get axis.others.2 = c.size.get axis.others.2 := by
  cases axis <;> exact ⟨rfl, rfl⟩

/-- Aligned cuboids begin at the same place and have the same size on the axis. -/
theorem alignedOn_iff {axis : Axis} : c.alignedOn d axis = true ↔
    c.pos.get axis = d.pos.get axis ∧ c.size.get axis = d.size.get axis := by
  rw [alignedOn, Bool.and_eq_true, beq_iff_eq, beq_iff_eq]

/-- A cuboid is continued by one that is aligned with it on the two other axes and begins where it
stops. -/
theorem continuedBy_iff {axis : Axis} : c.continuedBy d axis = true ↔
    c.alignedOn d axis.others.1 = true ∧ c.alignedOn d axis.others.2 = true ∧
      c.stop axis = d.pos.get axis := by
  rw [continuedBy, Bool.and_eq_true, Bool.and_eq_true, beq_iff_eq, and_assoc]

/-- A property holds on all other axes if it holds on the two others. -/
theorem forall_ne_iff {axis : Axis} {p : Axis → Prop} :
    (∀ a, a ≠ axis → p a) ↔ p axis.others.1 ∧ p axis.others.2 := by
  constructor
  · intro h
    exact ⟨h _ (by cases axis <;> decide), h _ (by cases axis <;> decide)⟩
  · rintro ⟨h₁, h₂⟩ a ha
    cases axis <;> cases a <;> first | assumption | exact absurd rfl ha

/-- A continuation in coordinates. -/
theorem continuedBy_iff_get {axis : Axis} : c.continuedBy d axis = true ↔
    (∀ a, a ≠ axis → c.pos.get a = d.pos.get a ∧ c.size.get a = d.size.get a) ∧
      c.pos.get axis + c.size.get axis = d.pos.get axis := by
  rw [continuedBy_iff, alignedOn_iff, alignedOn_iff, forall_ne_iff]
  exact and_assoc.symm

/-- The extended cuboid reaches over both parts on its axis. -/
theorem spans_extend_self {axis : Axis} (hc : c.IsSized) (hd : d.IsSized)
    (hstop : c.stop axis = d.pos.get axis) (x : ℝ) :
    (c.extend d axis).Spans axis x ↔ c.Spans axis x ∨ d.Spans axis x := by
  have hcs : (0 : ℝ) ≤ c.size.get axis := by exact_mod_cast hc axis
  have hds : (0 : ℝ) ≤ d.size.get axis := by exact_mod_cast hd axis
  have hstop' : (c.pos.get axis + c.size.get axis : ℝ) = d.pos.get axis := by
    exact_mod_cast hstop
  have hpos : (c.extend d axis).pos = c.pos := rfl
  simp only [Spans, stop, size_extend_self, hpos, Rat.cast_add]
  constructor
  · rintro ⟨hlow, hhigh⟩
    rcases lt_or_ge x (c.pos.get axis + c.size.get axis : ℝ) with h | h
    · exact .inl ⟨hlow, h⟩
    · exact .inr ⟨by linarith, by linarith⟩
  · rintro (⟨hlow, hhigh⟩ | ⟨hlow, hhigh⟩)
    · exact ⟨hlow, by linarith⟩
    · exact ⟨by linarith, by linarith⟩

/-- On the other axes it reaches as far as either part. -/
theorem spans_extend_others {axis : Axis} (h : c.continuedBy d axis = true) (x y : ℝ) :
    ((c.extend d axis).Spans axis.others.1 x ↔ c.Spans axis.others.1 x) ∧
      ((c.extend d axis).Spans axis.others.2 y ↔ c.Spans axis.others.2 y) ∧
      (d.Spans axis.others.1 x ↔ c.Spans axis.others.1 x) ∧
      (d.Spans axis.others.2 y ↔ c.Spans axis.others.2 y) := by
  obtain ⟨h₁, h₂, -⟩ := continuedBy_iff.1 h
  obtain ⟨hpos₁, hsize₁⟩ := alignedOn_iff.1 h₁
  obtain ⟨hpos₂, hsize₂⟩ := alignedOn_iff.1 h₂
  obtain ⟨he₁, he₂⟩ := size_extend_others c d axis
  have hpos : (c.extend d axis).pos = c.pos := rfl
  simp only [Spans, stop, hpos, he₁, he₂, hpos₁, hsize₁, hpos₂, hsize₂, and_self]

/-- The box of an extended cuboid is that of its two parts put together. -/
theorem region_of_absorb? (hc : c.IsSized) (hd : d.IsSized) (h : c.absorb? d = some grown) :
    grown.region = c.region ∪ d.region := by
  obtain ⟨axis, haxis, rfl⟩ := exists_axis_of_absorb? h
  obtain ⟨-, -, hstop⟩ := continuedBy_iff.1 haxis
  ext p
  obtain ⟨h₁, h₂, hd₁, hd₂⟩ := spans_extend_others haxis (p axis.others.1) (p axis.others.2)
  simp only [Set.mem_union, mem_region, forall_axis_iff axis, h₁, h₂, hd₁, hd₂,
    spans_extend_self hc hd hstop, or_and_right]

/-- No point is in two cuboids of which one ends before the other begins. -/
theorem disjoint_of_stop_le {axis : Axis} (h : c.stop axis ≤ d.pos.get axis) :
    Disjoint c.region d.region := by
  refine Set.disjoint_left.2 fun p hpc hpd => ?_
  have h' : (c.stop axis : ℝ) ≤ d.pos.get axis := Rat.cast_le.2 h
  exact absurd ((hpc axis).2.trans_le h') (not_lt.2 (hpd axis).1)

/-- No point is in both parts: the one begins where the other ends. -/
theorem disjoint_of_absorb? (h : c.absorb? d = some grown) : Disjoint c.region d.region := by
  obtain ⟨axis, haxis, -⟩ := exists_axis_of_absorb? h
  obtain ⟨-, -, hstop⟩ := continuedBy_iff.1 haxis
  exact disjoint_of_stop_le hstop.le

/-- A grown cuboid has no negative extent if its parts have none. -/
theorem isSized_of_absorb? (hc : c.IsSized) (hd : d.IsSized) (h : c.absorb? d = some grown) :
    grown.IsSized := by
  obtain ⟨axis, -, rfl⟩ := exists_axis_of_absorb? h
  obtain ⟨h₁, h₂⟩ := size_extend_others c d axis
  refine (forall_axis_iff axis).2 ⟨?_, ?_, ?_⟩
  · exact size_extend_self c d axis ▸ add_nonneg (hc axis) (hd axis)
  · exact h₁ ▸ hc _
  · exact h₂ ▸ hc _

/-- The volume, seen from one axis. -/
theorem volume_eq (c : Cuboid Rat) (axis : Axis) :
    c.volume = c.size.get axis * (c.size.get axis.others.1 * c.size.get axis.others.2) := by
  cases axis <;> simp only [volume, Vec3.get, Axis.others, Scalar.ofNat_rat, Nat.cast_one] <;> ring

/-- The volume of a grown cuboid is that of its parts together. -/
theorem volume_of_absorb? (h : c.absorb? d = some grown) :
    grown.volume = c.volume + d.volume := by
  obtain ⟨axis, haxis, rfl⟩ := exists_axis_of_absorb? h
  obtain ⟨h₁, h₂, -⟩ := continuedBy_iff.1 haxis
  obtain ⟨he₁, he₂⟩ := size_extend_others c d axis
  rw [volume_eq _ axis, volume_eq c axis, volume_eq d axis, size_extend_self, he₁, he₂,
    ← (alignedOn_iff.1 h₁).2, ← (alignedOn_iff.1 h₂).2]
  exact add_mul _ _ _

/-- The volume adds up. -/
theorem isAdditive_volume : IsAdditive (fun _ => True) (volume : Cuboid Rat → Rat) where
  grown _ _ _ := trivial
  add _ _ h := volume_of_absorb? h

/-- One if the cuboid fills the point, and nothing else. -/
noncomputable def fills (p : Axis → ℝ) (c : Cuboid Rat) : Nat := c.region.indicator 1 p

/-- A cuboid fills each of its points once. -/
theorem fills_of_mem {p : Axis → ℝ} (h : p ∈ c.region) : c.fills p = 1 := Set.indicator_of_mem h 1

/-- A cuboid fills no point outside it. -/
theorem fills_of_notMem {p : Axis → ℝ} (h : p ∉ c.region) : c.fills p = 0 :=
  Set.indicator_of_notMem h 1

/-- The cuboids that fill a point add up. -/
theorem isAdditive_fills (p : Axis → ℝ) : IsAdditive IsSized (fills p) where
  grown hc hd h := isSized_of_absorb? hc hd h
  add hc hd h := by
    rw [fills, region_of_absorb? hc hd h, Set.indicator_union_of_disjoint (disjoint_of_absorb? h)]
    rfl

end Cuboid

/-! ## Lists of cuboids -/

open Classical in
/-- The number of cuboids that fill a point. -/
noncomputable def fillCount (cs : List (Cuboid Rat)) (p : Axis → ℝ) : Nat :=
  cs.countP fun c => decide (p ∈ c.region)

/-- The part of space that is filled. -/
def filled (cs : List (Cuboid Rat)) : Set (Axis → ℝ) := {p | ∃ c ∈ cs, p ∈ c.region}

/-- No two cuboids of the list fill the same point. -/
def AreApart (cs : List (Cuboid Rat)) : Prop := cs.Pairwise fun c d => Disjoint c.region d.region

variable {cs : List (Cuboid Rat)} {p : Axis → ℝ}

/-- How often a point is filled is the sum over the cuboids. -/
theorem sum_fills (cs : List (Cuboid Rat)) (p : Axis → ℝ) :
    (cs.map (Cuboid.fills p)).sum = fillCount cs p := by
  induction cs with
  | nil => rfl
  | cons c rest ih =>
    rw [List.map_cons, List.sum_cons, ih, add_comm, fillCount, fillCount, List.countP_cons]
    by_cases h : p ∈ c.region
    · simp [c.fills_of_mem h, h]
    · simp [c.fills_of_notMem h, h]

/-- A point is covered if some cuboid fills it. -/
theorem mem_filled_iff : p ∈ filled cs ↔ 0 < fillCount cs p := by
  simp only [fillCount, List.countP_pos_iff, decide_eq_true_eq]
  exact Iff.rfl

/-- Cuboids are apart if no point is filled twice. -/
theorem areApart_iff : AreApart cs ↔ ∀ p, fillCount cs p ≤ 1 := by
  induction cs with
  | nil => exact iff_of_true .nil fun p => Nat.zero_le 1
  | cons c rest ih =>
    rw [AreApart, List.pairwise_cons, ← AreApart, ih]
    have hcons : ∀ p, fillCount (c :: rest) p = Cuboid.fills p c + fillCount rest p := by
      intro p
      rw [← sum_fills, List.map_cons, List.sum_cons, sum_fills]
    simp only [hcons]
    constructor
    · rintro ⟨hc, hrest⟩ p
      by_cases hp : p ∈ c.region
      · have hnot : p ∉ filled rest := by
          rintro ⟨d, hd, hpd⟩
          exact Set.disjoint_left.1 (hc d hd) hp hpd
        have hzero := Nat.eq_zero_of_not_pos (mt mem_filled_iff.2 hnot)
        rw [hzero, c.fills_of_mem hp]
      · rw [c.fills_of_notMem hp, zero_add]
        exact hrest p
    · intro h
      refine ⟨fun d hd => Set.disjoint_left.2 fun p hp hpd => ?_, fun p => ?_⟩
      · have hpos := mem_filled_iff.1 ⟨d, hd, hpd⟩
        have hle := h p
        rw [c.fills_of_mem hp] at hle
        omega
      · exact le_trans (Nat.le_add_left _ _) (h p)

/-- Two lists of cuboids fill the same space: every point as often, hence the same part of it with
the same surface, and the cuboids of one overlap if those of the other do. -/
structure SameSpace (cs ds : List (Cuboid Rat)) : Prop where
  fillCount_eq : ∀ p, fillCount cs p = fillCount ds p
  volume_eq : (cs.map Cuboid.volume).sum = (ds.map Cuboid.volume).sum
  filled_eq : filled cs = filled ds
  surface_eq : frontier (filled cs) = frontier (filled ds)
  areApart_iff : AreApart cs ↔ AreApart ds

/-- Merging cuboids changes nothing about the space that they fill. -/
theorem mergeCuboids_sameSpace {cs : List (Cuboid Rat)} (hcs : ∀ c ∈ cs, c.IsSized) :
    SameSpace (mergeCuboids cs) cs := by
  have hcount : ∀ p, fillCount (mergeCuboids cs) p = fillCount cs p := by
    intro p
    rw [← sum_fills, ← sum_fills]
    exact (Cuboid.isAdditive_fills p).sum_mergeCuboids hcs
  have hfilled : filled (mergeCuboids cs) = filled cs := by
    ext p
    rw [mem_filled_iff, mem_filled_iff, hcount]
  exact {
    fillCount_eq := hcount
    volume_eq := Cuboid.isAdditive_volume.sum_mergeCuboids fun _ _ => trivial
    filled_eq := hfilled
    surface_eq := congrArg frontier hfilled
    areApart_iff := by simp only [BlockModels.areApart_iff, hcount] }

/-- The last cuboid joins the third to a column that the first two continue; the one that overlaps
them stays. -/
theorem mergeCuboids_sameSpace_of_columns :
    let unit (x y : Rat) : Cuboid Rat := ⟨⟨x, y, 0⟩, ⟨1, 1, 1⟩⟩
    let cs := [unit 0 0, unit 0 1, ⟨⟨1 / 2, 0, 0⟩, ⟨1, 1, 2⟩⟩, unit 1 1, unit 1 0]
    (∀ c ∈ cs, c.IsSized) ∧
      mergeCuboids cs = [⟨⟨1 / 2, 0, 0⟩, ⟨1, 1, 2⟩⟩, ⟨⟨0, 0, 0⟩, ⟨2, 2, 1⟩⟩] ∧
        SameSpace (mergeCuboids cs) cs := by
  intro unit cs
  have hcs : ∀ c ∈ cs, c.IsSized := by
    simp only [cs, unit, Cuboid.IsSized, List.forall_mem_cons, Cuboid.forall_axis_iff .x]
    decide +kernel
  exact ⟨hcs, by decide +kernel, mergeCuboids_sameSpace hcs⟩

end BlockModels
