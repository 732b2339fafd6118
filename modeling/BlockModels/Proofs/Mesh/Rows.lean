import BlockModels.Proofs.Mesh.Parts

/-!
# Rows of cubes

Which cuboids a list is merged to depends on its order: a cube at which a row has a branch joins
what comes first, and then the rest of the row is two pieces instead of one
(`length_mergeCuboids_of_branch`). The space that is filled never depends on the order.

If no cube touches others on two axes (`AreRows`), nothing is left to the order. Every cuboid of the
merged list is then a row of cubes (`isRow_of_mem`), and a whole one: no cube continues it or is
continued by it (`InRows.exists_isWholeRow`), since that cube would be in a row of its own that had
been joined with this one. A cube is in one whole row only (`IsWholeRow.eq_of_cell`), so the same
cubes in another order are merged to the same cuboids (`mergeCuboids_of_perm`).
-/

namespace BlockModels

namespace Cuboid

variable {c d x r e : Cuboid Rat} {cs : List (Cuboid Rat)} {axis axis' : Axis} {i j m n : Nat}

/-- A cube with edges of length one. -/
def IsUnit (c : Cuboid Rat) : Prop := c.size = .fill 1

/-- A unit cube has length one along every axis. -/
theorem IsUnit.size_eq (h : x.IsUnit) (a : Axis) : x.size.get a = 1 := by
  rw [h]
  cases a <;> rfl

/-- One of the two cuboids continues the other on the axis. -/
def TouchesOn (c d : Cuboid Rat) (axis : Axis) : Prop :=
  c.continuedBy d axis = true ∨ d.continuedBy c axis = true

instance (c : Cuboid Rat) : Decidable c.IsUnit := inferInstanceAs (Decidable (_ = _))

instance (c d : Cuboid Rat) (axis : Axis) : Decidable (c.TouchesOn d axis) :=
  inferInstanceAs (Decidable (_ ∨ _))

/-- Touching does not depend on which of the two is first. -/
theorem TouchesOn.symm (h : c.TouchesOn d axis) : d.TouchesOn c axis := Or.symm h

/-- A cuboid absorbs what continues it. -/
theorem absorb?_ne_none (h : c.continuedBy d axis = true) : c.absorb? d ≠ none := by
  intro hnone
  exact List.find?_eq_none.1 (Option.map_eq_none_iff.1 hnone) axis axis.mem_all h

/-- Cuboids are equal if they agree along every axis. -/
theorem eq_of_get (hpos : ∀ a, c.pos.get a = d.pos.get a)
    (hsize : ∀ a, c.size.get a = d.size.get a) : c = d := by
  obtain ⟨pos, size⟩ := c
  obtain ⟨pos', size'⟩ := d
  obtain rfl : pos = pos' := Vec3.eq_of_get hpos
  obtain rfl : size = size' := Vec3.eq_of_get hsize
  rfl

/-- The place at which a cuboid begins, as a point of space. -/
noncomputable def corner (c : Cuboid Rat) : Axis → ℝ := fun axis => c.pos.get axis

/-- A corner is in a cuboid if it is within it along every axis. -/
theorem corner_mem_region_iff : d.corner ∈ c.region ↔
    ∀ a, c.pos.get a ≤ d.pos.get a ∧ d.pos.get a < c.pos.get a + c.size.get a := by
  simp only [mem_region, Spans, corner, stop, Rat.cast_le, Rat.cast_lt]

/-- A cuboid of positive size has its own corner. -/
theorem corner_mem_region (h : ∀ a, 0 < c.size.get a) : c.corner ∈ c.region :=
  corner_mem_region_iff.2 fun a => ⟨le_refl _, lt_add_of_pos_right _ (h a)⟩

/-! ## Rows -/

/-- The cube at a position of the row that begins where a cuboid begins. -/
def cell (r : Cuboid Rat) (axis : Axis) (i : Nat) : Cuboid Rat :=
  ⟨r.pos.set axis (r.pos.get axis + i), .fill 1⟩

/-- Along the row, the `i`th cell starts `i` after the row. -/
theorem get_pos_cell_self : (r.cell axis i).pos.get axis = r.pos.get axis + i :=
  Vec3.get_set_self _ _ _

/-- Across the row, every cell starts where the row does. -/
theorem get_pos_cell_of_ne {a : Axis} (h : a ≠ axis) :
    (r.cell axis i).pos.get a = r.pos.get a :=
  Vec3.get_set_of_ne h _ _

/-- A cell has length one along every axis. -/
theorem get_size_cell (a : Axis) : (r.cell axis i).size.get a = 1 := by
  cases a <;> rfl

/-- Cells of two rows are the same if the rows are on a line and the cells at the same place. -/
theorem cell_eq_cell_iff : r.cell axis i = e.cell axis j ↔
    (∀ a, a ≠ axis → r.pos.get a = e.pos.get a) ∧
      r.pos.get axis + i = e.pos.get axis + j := by
  constructor
  · intro h
    have hpos : ∀ a, (r.cell axis i).pos.get a = (e.cell axis j).pos.get a := fun a => by rw [h]
    refine ⟨fun a ha => ?_, ?_⟩
    · rw [← get_pos_cell_of_ne ha (i := i), hpos, get_pos_cell_of_ne ha]
    · rw [← get_pos_cell_self, hpos, get_pos_cell_self]
  · rintro ⟨hline, hplace⟩
    refine eq_of_get (fun a => ?_) fun a => by rw [get_size_cell, get_size_cell]
    rcases eq_or_ne a axis with rfl | h
    · rw [get_pos_cell_self, get_pos_cell_self, hplace]
    · rw [get_pos_cell_of_ne h, get_pos_cell_of_ne h, hline a h]

/-- The first cell is the same along every axis. -/
theorem cell_zero_eq (axis axis' : Axis) : r.cell axis 0 = r.cell axis' 0 := by
  have hset : ∀ a, r.pos.set a (r.pos.get a + (0 : Nat)) = r.pos := by
    intro a
    refine Vec3.eq_of_get fun b => ?_
    rcases eq_or_ne b a with rfl | h
    · rw [Vec3.get_set_self, Nat.cast_zero, add_zero]
    · rw [Vec3.get_set_of_ne h]
  rw [cell, cell, hset, hset]

/-- Each cell of a row continues the one before it. -/
theorem continuedBy_cell_succ : (r.cell axis i).continuedBy (r.cell axis (i + 1)) axis = true := by
  refine continuedBy_iff_get.2 ⟨fun a h => ?_, ?_⟩
  · rw [get_pos_cell_of_ne h, get_pos_cell_of_ne h, get_size_cell, get_size_cell]
    exact ⟨rfl, rfl⟩
  · rw [get_pos_cell_self, get_pos_cell_self, get_size_cell, Nat.cast_add, Nat.cast_one, add_assoc]

/-- A cuboid is a row of `n + 1` cubes of a list. -/
structure IsRow (cs : List (Cuboid Rat)) (r : Cuboid Rat) (axis : Axis) (n : Nat) : Prop where
  size_self : r.size.get axis = n + 1
  size_others : ∀ a, a ≠ axis → r.size.get a = 1
  mem : ∀ i ≤ n, r.cell axis i ∈ cs

/-- A unit cube is a row by itself, along every axis. -/
theorem isRow_of_isUnit (hx : x.IsUnit) (hmem : x ∈ cs) (axis : Axis) : IsRow cs x axis 0 := by
  refine ⟨by rw [hx.size_eq, Nat.cast_zero, zero_add], fun a _ => hx.size_eq a, fun i hi => ?_⟩
  have hcell : x.cell axis 0 = x := by
    refine eq_of_get (fun a => ?_) fun a => by rw [get_size_cell, hx.size_eq]
    rw [cell_zero_eq axis a, get_pos_cell_self, Nat.cast_zero, add_zero]
  rw [Nat.le_zero.1 hi, hcell]
  exact hmem

/-- A single cube is a row on every axis. -/
theorem IsRow.turn (h : IsRow cs r axis 0) (axis' : Axis) : IsRow cs r axis' 0 := by
  have hsize : ∀ a, r.size.get a = 1 := by
    intro a
    rcases eq_or_ne a axis with rfl | ha
    · rw [h.size_self, Nat.cast_zero, zero_add]
    · exact h.size_others a ha
  refine ⟨by rw [hsize, Nat.cast_zero, zero_add], fun a _ => hsize a, fun i hi => ?_⟩
  rw [Nat.le_zero.1 hi, cell_zero_eq axis' axis]
  exact h.mem 0 (le_refl 0)

/-- A row has a positive size. -/
theorem IsRow.size_pos (h : IsRow cs r axis n) (a : Axis) : 0 < r.size.get a := by
  rcases eq_or_ne a axis with rfl | ha
  · rw [h.size_self]
    positivity
  · rw [h.size_others a ha]
    exact one_pos

/-- Every cube of a row begins in it. -/
theorem IsRow.corner_cell_mem (h : IsRow cs r axis n) (hi : i ≤ n) :
    (r.cell axis i).corner ∈ r.region := by
  refine corner_mem_region_iff.2 fun a => ?_
  rcases eq_or_ne a axis with rfl | ha
  · have hi' : (i : Rat) < n + 1 := by exact_mod_cast Nat.lt_succ_of_le hi
    rw [get_pos_cell_self, h.size_self]
    exact ⟨le_add_of_nonneg_right (Nat.cast_nonneg i), by linarith⟩
  · rw [get_pos_cell_of_ne ha]
    exact ⟨le_refl _, lt_add_of_pos_right _ (h.size_pos a)⟩

/-- Every cube of a longer row touches another one on the axis of the row. -/
theorem IsRow.exists_touches (h : IsRow cs r axis n) (hn : 0 < n) (hi : i ≤ n) :
    ∃ x ∈ cs, (r.cell axis i).TouchesOn x axis := by
  cases i with
  | zero => exact ⟨_, h.mem 1 hn, .inl continuedBy_cell_succ⟩
  | succ k => exact ⟨_, h.mem k (by omega), .inr continuedBy_cell_succ⟩

end Cuboid

open Cuboid

/-- No cuboid of the list touches others on two axes, so they stand in straight rows. -/
def AreRows (cs : List (Cuboid Rat)) : Prop :=
  ∀ c ∈ cs, ∀ d ∈ cs, ∀ e ∈ cs, ∀ axis axis', c.TouchesOn d axis → c.TouchesOn e axis' →
    axis = axis'

instance (cs : List (Cuboid Rat)) : Decidable (AreRows cs) :=
  decidable_of_iff
    (∀ c ∈ cs, ∀ d ∈ cs, ∀ e ∈ cs, ∀ axis ∈ Axis.all, ∀ axis' ∈ Axis.all, c.TouchesOn d axis →
      c.TouchesOn e axis' → axis = axis')
    (by simp only [AreRows, Axis.mem_all, forall_const])

namespace Cuboid

variable {c d x r e : Cuboid Rat} {cs : List (Cuboid Rat)} {axis axis' : Axis} {i j m n : Nat}

/-- A row of which a cube touches something on an axis is a row on that axis. -/
theorem IsRow.along (h : IsRow cs r axis n) (hrows : AreRows cs) (hi : i ≤ n) (hx : x ∈ cs)
    (htouch : (r.cell axis i).TouchesOn x axis') :
    IsRow cs r axis' n ∧ r.cell axis' i = r.cell axis i := by
  rcases Nat.eq_zero_or_pos n with rfl | hn
  · rw [Nat.le_zero.1 hi]
    exact ⟨h.turn axis', cell_zero_eq _ _⟩
  · obtain ⟨y, hy, hy'⟩ := h.exists_touches hn hi
    obtain rfl : axis = axis' := hrows _ (h.mem i hi) y hy x hx _ _ hy' htouch
    exact ⟨h, rfl⟩

/-- A row that continues another one makes a longer row with it. -/
theorem IsRow.extend (hc : IsRow cs c axis m) (hd : IsRow cs d axis n)
    (h : c.continuedBy d axis = true) : IsRow cs (c.extend d axis) axis (m + n + 1) := by
  obtain ⟨hother, hstop⟩ := continuedBy_iff_get.1 h
  rw [hc.size_self] at hstop
  refine ⟨?_, fun a ha => (size_extend_of_ne ha c d).trans (hc.size_others a ha), fun i hi => ?_⟩
  · rw [size_extend_self, hc.size_self, hd.size_self]
    push_cast
    ring
  · rcases Nat.lt_or_ge m i with hlt | hle
    · have hcell : (c.extend d axis).cell axis i = d.cell axis (i - (m + 1)) := by
        refine cell_eq_cell_iff.2 ⟨fun a ha => (hother a ha).1, ?_⟩
        have hi' : (i : Rat) = (i - (m + 1) : Nat) + (m + 1) := by
          exact_mod_cast (Nat.sub_add_cancel hlt).symm
        change c.pos.get axis + i = _
        rw [← hstop, hi']
        ring
      rw [hcell]
      exact hd.mem _ (by omega)
    · exact hc.mem i hle

/-- What two rows are joined to is a row: they are not joined side by side. -/
theorem IsRow.exists_extend (hrows : AreRows cs) (hc : IsRow cs c axis m) (hd : IsRow cs d axis' n)
    {b : Axis} (h : c.continuedBy d b = true) : ∃ k, IsRow cs (c.extend d b) b k := by
  obtain ⟨hother, hstop⟩ := continuedBy_iff_get.1 h
  obtain ⟨hc', hd'⟩ : IsRow cs c b m ∧ IsRow cs d b n := by
    rcases eq_or_ne b axis with rfl | hb
    · -- The second one is as thick as the first.
      refine ⟨hc, ?_⟩
      rcases eq_or_ne b axis' with rfl | hb'
      · exact hd
      · have hsize := (hother axis' hb'.symm).2
        rw [hc.size_others axis' hb'.symm, hd.size_self] at hsize
        have hn : n = 0 := by exact_mod_cast (add_eq_right.1 hsize.symm : (n : Rat) = 0)
        subst hn
        exact hd.turn b
    · -- Their first cubes touch.
      have htouch : (c.cell axis 0).TouchesOn (d.cell axis' 0) b := by
        rw [cell_zero_eq axis b, cell_zero_eq axis' b]
        refine .inl (continuedBy_iff_get.2 ⟨fun a ha => ?_, ?_⟩)
        · rw [get_pos_cell_of_ne ha, get_pos_cell_of_ne ha, get_size_cell, get_size_cell]
          exact ⟨(hother a ha).1, rfl⟩
        · rw [get_pos_cell_self, get_pos_cell_self, get_size_cell, ← hstop, hc.size_others b hb,
            Nat.cast_zero, add_zero, add_zero]
      exact ⟨(hc.along hrows (Nat.zero_le m) (hd.mem 0 (Nat.zero_le n)) htouch).1,
        (hd.along hrows (Nat.zero_le n) (hc.mem 0 (Nat.zero_le m)) htouch.symm).1⟩
  exact ⟨_, hc'.extend hd' h⟩

/-- A row that touches a cube on an axis is a row on that axis, for it is no thicker. -/
theorem IsRow.of_touchesOn (h : IsRow cs r axis n) (hx : x.IsUnit) (htouch : r.TouchesOn x axis') :
    IsRow cs r axis' n := by
  rcases eq_or_ne axis axis' with rfl | hne
  · exact h
  · have hsize : r.size.get axis = x.size.get axis := by
      rcases htouch with htouch | htouch
      · exact ((continuedBy_iff_get.1 htouch).1 axis hne).2
      · exact ((continuedBy_iff_get.1 htouch).1 axis hne).2.symm
    rw [h.size_self, hx.size_eq] at hsize
    obtain rfl : n = 0 := by exact_mod_cast (add_eq_right.1 hsize : (n : Rat) = 0)
    exact h.turn axis'

/-- What continues a row continues its last cube. -/
theorem IsRow.continuedBy_last (h : IsRow cs r axis n) (hx : x.IsUnit)
    (hnext : r.continuedBy x axis = true) : (r.cell axis n).continuedBy x axis = true := by
  obtain ⟨hother, hstop⟩ := continuedBy_iff_get.1 hnext
  refine continuedBy_iff_get.2 ⟨fun a ha => ⟨?_, ?_⟩, ?_⟩
  · rw [get_pos_cell_of_ne ha, (hother a ha).1]
  · rw [get_size_cell, hx.size_eq]
  · rw [get_pos_cell_self, get_size_cell, ← hstop, h.size_self, add_assoc]

/-- What a row continues is continued by its first cube. -/
theorem IsRow.continuedBy_first (hx : x.IsUnit) (hnext : x.continuedBy r axis = true) :
    x.continuedBy (r.cell axis 0) axis = true := by
  obtain ⟨hother, hstop⟩ := continuedBy_iff_get.1 hnext
  refine continuedBy_iff_get.2 ⟨fun a ha => ⟨?_, ?_⟩, ?_⟩
  · rw [get_pos_cell_of_ne ha, (hother a ha).1]
  · rw [get_size_cell, hx.size_eq]
  · rw [get_pos_cell_self, hstop, Nat.cast_zero, add_zero]

end Cuboid

section

variable {cs : List (Cuboid Rat)}

/-- Cubes in rows are merged to rows. -/
theorem isRow_of_mem (hunit : ∀ c ∈ cs, c.IsUnit) (hrows : AreRows cs) :
    ∀ r ∈ mergeCuboids cs, ∃ axis n, IsRow cs r axis n := by
  refine forall_mem_mergeCuboids ?_ fun c hc => ⟨.x, 0, isRow_of_isUnit (hunit c hc) hc .x⟩
  rintro c d grown ⟨axis, m, hc⟩ ⟨axis', n, hd⟩ h
  obtain ⟨b, hb, rfl⟩ := exists_axis_of_absorb? h
  exact ⟨b, hc.exists_extend hrows hd hb⟩

/-- Cuboids of a list that are apart are the same if they fill the same point. -/
theorem AreApart.eq_of_mem (h : AreApart cs) {c d : Cuboid Rat} (hc : c ∈ cs) (hd : d ∈ cs)
    {p : Axis → ℝ} (hpc : p ∈ c.region) (hpd : p ∈ d.region) : c = d := by
  by_contra hne
  have hsymm : Std.Symm fun c d : Cuboid Rat => Disjoint c.region d.region := ⟨fun _ _ h => h.symm⟩
  exact Set.disjoint_left.1 (h.forall hc hd hne) hpc hpd

/-- Cuboids are apart if on some axis one of them does not begin before the other ends. -/
theorem areApart_of_pairwise (h : cs.Pairwise fun c d =>
    ∃ axis ∈ Axis.all, c.stop axis ≤ d.pos.get axis ∨ d.stop axis ≤ c.pos.get axis) :
    AreApart cs := by
  refine h.imp fun {c d} ⟨axis, _, hgap⟩ => ?_
  rcases hgap with hgap | hgap
  · exact disjoint_of_stop_le hgap
  · exact (disjoint_of_stop_le hgap).symm

/-- Cuboids of positive size that are apart are distinct. -/
theorem nodup_of_areApart (h : AreApart cs) (hpos : ∀ c ∈ cs, ∀ a, 0 < c.size.get a) :
    cs.Nodup := by
  refine h.imp_of_mem fun {c d} hc _ hdisjoint hcd => ?_
  subst hcd
  have hcorner := corner_mem_region (hpos c hc)
  exact Set.disjoint_left.1 hdisjoint hcorner hcorner

/-- Cubes of edge one that are apart and stand in straight rows. -/
structure InRows (cs : List (Cuboid Rat)) : Prop where
  isUnit : ∀ c ∈ cs, c.IsUnit
  apart : AreApart cs
  rows : AreRows cs

namespace InRows

variable {r e x : Cuboid Rat} {axis axis' : Axis} {i j m n : Nat}

/-- Cubes in rows have a positive size. -/
theorem size_pos (h : InRows cs) (hx : x ∈ cs) (a : Axis) : 0 < x.size.get a :=
  (isRow_of_isUnit (h.isUnit x hx) hx .x).size_pos a

/-- Merging cubes in rows keeps the space they take. -/
theorem sameSpace (h : InRows cs) : SameSpace (mergeCuboids cs) cs :=
  mergeCuboids_sameSpace fun _ hc a => (h.size_pos hc a).le

/-- Merged cubes in rows are apart. -/
theorem apart_mergeCuboids (h : InRows cs) : AreApart (mergeCuboids cs) :=
  h.sameSpace.areApart_iff.2 h.apart

/-- Merged cubes in rows are distinct. -/
theorem nodup_mergeCuboids (h : InRows cs) : (mergeCuboids cs).Nodup := by
  refine nodup_of_areApart h.apart_mergeCuboids fun r hr a => ?_
  obtain ⟨axis, n, hrow⟩ := isRow_of_mem h.isUnit h.rows r hr
  exact hrow.size_pos a

/-- Every cube is found in one of the rows that the cubes are merged to. -/
theorem exists_row (h : InRows cs) (hx : x ∈ cs) :
    ∃ r ∈ mergeCuboids cs, ∃ axis n i, IsRow cs r axis n ∧ i ≤ n ∧ r.cell axis i = x := by
  have hfilled : x.corner ∈ filled (mergeCuboids cs) := by
    rw [h.sameSpace.filled_eq]
    exact ⟨x, hx, corner_mem_region (h.size_pos hx)⟩
  obtain ⟨r, hr, hmem⟩ := hfilled
  obtain ⟨axis, n, hrow⟩ := isRow_of_mem h.isUnit h.rows r hr
  rw [corner_mem_region_iff] at hmem
  obtain ⟨hlow, hhigh⟩ := hmem axis
  rw [hrow.size_self] at hhigh
  -- The cube is the one that as many others precede as the distance has whole steps.
  let i := ⌊x.pos.get axis - r.pos.get axis⌋₊
  have hfloor : (i : Rat) ≤ x.pos.get axis - r.pos.get axis := Nat.floor_le (sub_nonneg.2 hlow)
  have hnext : x.pos.get axis - r.pos.get axis < i + 1 := Nat.lt_floor_add_one _
  have hi : i ≤ n := by
    have hlt : (i : Rat) < n + 1 := by linarith
    exact Nat.lt_succ_iff.1 (by exact_mod_cast hlt)
  refine ⟨r, hr, axis, n, i, hrow, hi, ?_⟩
  refine h.apart.eq_of_mem (hrow.mem i hi) hx (corner_mem_region_iff.2 fun a => ?_)
    (corner_mem_region (h.size_pos hx))
  rcases eq_or_ne a axis with rfl | ha
  · rw [get_pos_cell_self, get_size_cell]
    constructor <;> linarith
  · rw [get_pos_cell_of_ne ha, get_size_cell, ← hrow.size_others a ha]
    exact hmem a

/-- Cubes of two rows on a line, one behind the other, are of the same row, since the rows would
have been joined. -/
theorem eq_of_continuedBy (h : InRows cs) (hr : r ∈ mergeCuboids cs) (he : e ∈ mergeCuboids cs)
    (hrow : IsRow cs r axis m) (hrow' : IsRow cs e axis n) (hi : i ≤ m) (hj : j ≤ n)
    (hnext : (r.cell axis i).continuedBy (e.cell axis j) axis = true) : r = e := by
  obtain ⟨hother, hplace⟩ := continuedBy_iff_get.1 hnext
  rw [get_pos_cell_self, get_pos_cell_self, get_size_cell] at hplace
  have hline : ∀ a, a ≠ axis → r.pos.get a = e.pos.get a := by
    intro a ha
    rw [← get_pos_cell_of_ne ha (r := r) (i := i), (hother a ha).1, get_pos_cell_of_ne ha]
  by_contra hne
  have hapart : ∀ k ≤ m, ∀ l ≤ n, r.pos.get axis + k ≠ e.pos.get axis + l := by
    intro k hk l hl hkl
    have hmem := hrow.corner_cell_mem hk
    rw [cell_eq_cell_iff.2 ⟨hline, hkl⟩] at hmem
    exact hne (h.apart_mergeCuboids.eq_of_mem hr he hmem (hrow'.corner_cell_mem hl))
  -- So the one cube is the last of its row and the other one the first.
  have hlast : i = m := by
    by_contra him
    refine hapart (i + 1) (by omega) j hj ?_
    rw [Nat.cast_add, Nat.cast_one, ← add_assoc]
    exact hplace
  have hfirst : j = 0 := by
    cases j with
    | zero => rfl
    | succ l =>
      refine absurd ?_ (hapart i hi l (by omega))
      push_cast at hplace
      linarith
  subst hlast hfirst
  have hcontinued : r.continuedBy e axis = true := by
    refine continuedBy_iff_get.2 ⟨fun a ha => ⟨hline a ha, ?_⟩, ?_⟩
    · rw [hrow.size_others a ha, hrow'.size_others a ha]
    · rw [hrow.size_self, ← add_assoc, hplace, Nat.cast_zero, add_zero]
  have hsymm : Std.Symm (AreSeparate : Cuboid Rat → Cuboid Rat → Prop) := ⟨fun _ _ h => h.symm⟩
  have hseparate := (isReduction_mergeCuboids cs).pairwise.forall hr he hne
  exact absorb?_ne_none hcontinued hseparate.forth

/-- Nothing of the list continues what its cubes are merged to, or is continued by it. -/
theorem not_touchesOn (h : InRows cs) (hr : r ∈ mergeCuboids cs) (hx : x ∈ cs) (axis : Axis) :
    ¬ r.TouchesOn x axis := by
  intro htouch
  obtain ⟨_, m, hrow⟩ := isRow_of_mem h.isUnit h.rows r hr
  obtain ⟨e, he, _, n, j, hrow', hj, hcell⟩ := h.exists_row hx
  have hxunit := h.isUnit x hx
  replace hrow := hrow.of_touchesOn hxunit htouch
  -- The cube is in the same row, on the same axis.
  have hturn : ∀ y ∈ cs, y.TouchesOn x axis → IsRow cs e axis n ∧ e.cell axis j = x := by
    intro y hy hyx
    obtain ⟨hrow'', hcell'⟩ := hrow'.along h.rows hj hy (hcell ▸ hyx.symm)
    exact ⟨hrow'', hcell'.trans hcell⟩
  rcases htouch with hnext | hnext
  · have hlast := hrow.continuedBy_last hxunit hnext
    obtain ⟨hrow'', hcell'⟩ := hturn _ (hrow.mem m (le_refl m)) (.inl hlast)
    obtain rfl := h.eq_of_continuedBy hr he hrow hrow'' (le_refl m) hj (hcell' ▸ hlast)
    have hsize := hrow.size_self.symm.trans hrow''.size_self
    have hplace := (continuedBy_iff_get.1 hnext).2
    rw [← hcell', get_pos_cell_self, hrow''.size_self] at hplace
    have hj' : (j : Rat) ≤ n := Nat.cast_le.2 hj
    linarith
  · have hfirst := IsRow.continuedBy_first hxunit hnext
    obtain ⟨hrow'', hcell'⟩ := hturn _ (hrow.mem 0 (Nat.zero_le m)) (.inr hfirst)
    obtain rfl := h.eq_of_continuedBy he hr hrow'' hrow hj (Nat.zero_le m) (hcell' ▸ hfirst)
    have hplace := (continuedBy_iff_get.1 hnext).2
    rw [← hcell', get_pos_cell_self, get_size_cell] at hplace
    have hj' : (0 : Rat) ≤ j := Nat.cast_nonneg j
    linarith

end InRows

/-! ## Whole rows -/

/-- A row of cubes of a list that nothing in the list continues, and that continues nothing. -/
structure IsWholeRow (cs : List (Cuboid Rat)) (r : Cuboid Rat) (axis : Axis) (n : Nat) : Prop
    extends IsRow cs r axis n where
  alone : ∀ x ∈ cs, ∀ a, ¬ r.TouchesOn x a

namespace IsWholeRow

variable {r e : Cuboid Rat} {axis axis' : Axis} {i j m n : Nat}

/-- A whole row begins no later than any row with which it shares a cube. -/
theorem index_le (h : IsWholeRow cs r axis m) (h' : IsRow cs e axis n) (hj : j ≤ n)
    (hcell : r.cell axis i = e.cell axis j) : j ≤ i := by
  obtain ⟨hline, hplace⟩ := cell_eq_cell_iff.1 hcell
  by_contra hij
  obtain ⟨k, rfl⟩ : ∃ k, j = i + k + 1 := ⟨j - i - 1, by omega⟩
  refine h.alone (e.cell axis k) (h'.mem k (by omega)) axis
    (.inr (continuedBy_iff_get.2 ⟨fun a ha => ⟨?_, ?_⟩, ?_⟩))
  · rw [get_pos_cell_of_ne ha, hline a ha]
  · rw [get_size_cell, h.size_others a ha]
  · rw [get_pos_cell_self, get_size_cell]
    push_cast at hplace
    linarith

/-- A whole row is no shorter than any row that begins where it begins. -/
theorem length_le (h : IsWholeRow cs r axis m) (h' : IsRow cs e axis n)
    (hpos : ∀ a, r.pos.get a = e.pos.get a) : n ≤ m := by
  by_contra hnm
  refine h.alone (e.cell axis (m + 1)) (h'.mem (m + 1) (by omega)) axis
    (.inl (continuedBy_iff_get.2 ⟨fun a ha => ⟨?_, ?_⟩, ?_⟩))
  · rw [get_pos_cell_of_ne ha, hpos]
  · rw [get_size_cell, h.size_others a ha]
  · rw [get_pos_cell_self, h.size_self, hpos]
    push_cast
    ring

/-- Whole rows with a common cube are the same, if they are on the same axis. -/
theorem eq_of_cell_self (h : IsWholeRow cs r axis m) (h' : IsWholeRow cs e axis n) (hi : i ≤ m)
    (hj : j ≤ n) (hcell : r.cell axis i = e.cell axis j) : r = e := by
  obtain ⟨hline, hplace⟩ := cell_eq_cell_iff.1 hcell
  obtain rfl : i = j := le_antisymm (h'.index_le h.toIsRow hi hcell.symm)
    (h.index_le h'.toIsRow hj hcell)
  have hpos : ∀ a, r.pos.get a = e.pos.get a := by
    intro a
    rcases eq_or_ne a axis with rfl | ha
    · exact add_right_cancel hplace
    · exact hline a ha
  obtain rfl : m = n := le_antisymm (h'.length_le h.toIsRow fun a => (hpos a).symm)
    (h.length_le h'.toIsRow hpos)
  refine eq_of_get hpos fun a => ?_
  rcases eq_or_ne a axis with rfl | ha
  · rw [h.size_self, h'.size_self]
  · rw [h.size_others a ha, h'.size_others a ha]

/-- Whole rows with a common cube are the same. -/
theorem eq_of_cell (hrows : AreRows cs) (h : IsWholeRow cs r axis m)
    (h' : IsWholeRow cs e axis' n) (hi : i ≤ m) (hj : j ≤ n)
    (hcell : r.cell axis i = e.cell axis' j) : r = e := by
  rcases Nat.eq_zero_or_pos n with rfl | hn
  · obtain rfl := Nat.le_zero.1 hj
    rw [cell_zero_eq axis' axis] at hcell
    exact h.eq_of_cell_self ⟨h'.turn axis, h'.alone⟩ hi (le_refl 0) hcell
  · obtain ⟨y, hy, htouch⟩ := h'.exists_touches hn hj
    rw [← hcell] at htouch
    obtain ⟨hrow, hcell'⟩ := h.along hrows hi hy htouch
    have hwhole : IsWholeRow cs r axis' m := ⟨hrow, h.alone⟩
    exact hwhole.eq_of_cell_self h' hi hj (hcell'.trans hcell)

end IsWholeRow

/-- Cubes in rows are merged to whole rows. -/
theorem InRows.exists_isWholeRow (h : InRows cs) {r : Cuboid Rat} (hr : r ∈ mergeCuboids cs) :
    ∃ axis n, IsWholeRow cs r axis n := by
  obtain ⟨axis, n, hrow⟩ := isRow_of_mem h.isUnit h.rows r hr
  exact ⟨axis, n, hrow, fun x hx a => h.not_touchesOn hr hx a⟩

variable {ds : List (Cuboid Rat)}

/-- A whole row of a list is one of every list with the same cubes. -/
theorem IsWholeRow.of_subset {r : Cuboid Rat} {axis : Axis} {n : Nat} (h : IsWholeRow cs r axis n)
    (hsubset : cs ⊆ ds) (hsuperset : ds ⊆ cs) : IsWholeRow ds r axis n :=
  ⟨⟨h.size_self, h.size_others, fun i hi => hsubset (h.mem i hi)⟩,
    fun x hx => h.alone x (hsuperset hx)⟩

/-- The same cubes in another order are merged to the same rows: in both cases to the whole ones. -/
theorem InRows.mem_of_perm (h : InRows cs) (h' : InRows ds) (hperm : cs.Perm ds) {r : Cuboid Rat}
    (hr : r ∈ mergeCuboids cs) : r ∈ mergeCuboids ds := by
  obtain ⟨axis, m, hwhole⟩ := h.exists_isWholeRow hr
  obtain ⟨e, he, axis', n, i, hrow, hi, hcell⟩ :=
    h'.exists_row (hperm.subset (hwhole.mem 0 (Nat.zero_le m)))
  have hwhole' : IsWholeRow ds e axis' n := ⟨hrow, fun x hx a => h'.not_touchesOn he hx a⟩
  obtain rfl := hwhole.eq_of_cell h.rows (hwhole'.of_subset hperm.symm.subset hperm.subset)
    (Nat.zero_le m) hi hcell.symm
  exact he

/-- Taking the same space is symmetric. -/
theorem SameSpace.symm (h : SameSpace cs ds) : SameSpace ds cs where
  fillCount_eq p := (h.fillCount_eq p).symm
  volume_eq := h.volume_eq.symm
  filled_eq := h.filled_eq.symm
  surface_eq := h.surface_eq.symm
  areApart_iff := h.areApart_iff.symm

/-- Taking the same space is transitive. -/
theorem SameSpace.trans {es : List (Cuboid Rat)} (h : SameSpace cs ds) (h' : SameSpace ds es) :
    SameSpace cs es where
  fillCount_eq p := (h.fillCount_eq p).trans (h'.fillCount_eq p)
  volume_eq := h.volume_eq.trans h'.volume_eq
  filled_eq := h.filled_eq.trans h'.filled_eq
  surface_eq := h.surface_eq.trans h'.surface_eq
  areApart_iff := h.areApart_iff.trans h'.areApart_iff

/-- The order of cuboids does not change the space they take. -/
theorem sameSpace_of_perm (h : cs.Perm ds) : SameSpace cs ds := by
  have hcount : ∀ p, fillCount cs p = fillCount ds p := fun p => h.countP_eq _
  have hfilled : filled cs = filled ds := by
    ext p
    rw [mem_filled_iff, mem_filled_iff, hcount]
  exact {
    fillCount_eq := hcount
    volume_eq := (h.map _).sum_eq
    filled_eq := hfilled
    surface_eq := congrArg frontier hfilled
    areApart_iff := by simp only [areApart_iff, hcount] }

/-- Cubes are in rows in every order. -/
theorem InRows.of_perm (h : InRows cs) (hperm : cs.Perm ds) : InRows ds where
  isUnit c hc := h.isUnit c (hperm.symm.subset hc)
  apart := (sameSpace_of_perm hperm).areApart_iff.1 h.apart
  rows c hc d hd e he := h.rows c (hperm.symm.subset hc) d (hperm.symm.subset hd) e
    (hperm.symm.subset he)

/-- Cubes fill the same space when they are merged in another order, and if they stand in straight
rows they are merged to the same cuboids. -/
theorem mergeCuboids_of_perm (hperm : cs.Perm ds) (hunit : ∀ c ∈ cs, c.IsUnit)
    (hapart : AreApart cs) :
    SameSpace (mergeCuboids cs) (mergeCuboids ds) ∧
      (AreRows cs → (mergeCuboids cs).Perm (mergeCuboids ds)) := by
  have hsized : ∀ c ∈ cs, c.IsSized := fun c hc a => (hunit c hc).size_eq a ▸ zero_le_one
  refine ⟨?_, fun hrows => ?_⟩
  · have hcs := mergeCuboids_sameSpace hsized
    have hds := mergeCuboids_sameSpace fun c hc => hsized c (hperm.symm.subset hc)
    exact (hcs.trans (sameSpace_of_perm hperm)).trans hds.symm
  · have h : InRows cs := ⟨hunit, hapart, hrows⟩
    have h' : InRows ds := h.of_perm hperm
    refine (List.perm_ext_iff_of_nodup h.nodup_mergeCuboids h'.nodup_mergeCuboids).2 fun r => ?_
    exact ⟨h.mem_of_perm h' hperm, h'.mem_of_perm h hperm.symm⟩

/-- Two rows, the cubes of one mixed with those of the other. -/
theorem mergeCuboids_of_perm_of_rows :
    let cube (x y : Rat) : Cuboid Rat := ⟨⟨x, y, 0⟩, ⟨1, 1, 1⟩⟩
    let cs := [cube 0 0, cube 3 1, cube 1 0, cube 3 2, cube 2 0]
    let ds := [cube 2 0, cube 0 0, cube 3 2, cube 1 0, cube 3 1]
    cs.Perm ds ∧ (∀ c ∈ cs, c.IsUnit) ∧ AreApart cs ∧ AreRows cs ∧
      (mergeCuboids cs).length = 2 ∧ mergeCuboids cs ≠ mergeCuboids ds ∧
      SameSpace (mergeCuboids cs) (mergeCuboids ds) ∧
      (mergeCuboids cs).Perm (mergeCuboids ds) := by
  intro cube cs ds
  have hperm : cs.Perm ds := by decide +kernel
  have hunit : ∀ c ∈ cs, c.IsUnit := by decide +kernel
  have hapart : AreApart cs := areApart_of_pairwise (by decide +kernel)
  have hrows : AreRows cs := by decide +kernel
  obtain ⟨hspace, hmerged⟩ := mergeCuboids_of_perm hperm hunit hapart
  exact ⟨hperm, hunit, hapart, hrows, by decide +kernel, by decide +kernel, hspace, hmerged hrows⟩

/-- Where a row has a branch, the number of cuboids depends on the order: the cube at the branch
joins whatever comes first. -/
theorem length_mergeCuboids_of_branch :
    let cube (x y : Rat) : Cuboid Rat := ⟨⟨x, y, 0⟩, ⟨1, 1, 1⟩⟩
    let cs := [cube 0 0, cube 1 0, cube 2 0, cube 1 1]
    let ds := [cube 1 0, cube 1 1, cube 0 0, cube 2 0]
    cs.Perm ds ∧ (∀ c ∈ cs, c.IsUnit) ∧ AreApart cs ∧
      (mergeCuboids cs).length = 2 ∧ (mergeCuboids ds).length = 3 := by
  intro cube cs ds
  exact ⟨by decide +kernel, by decide +kernel, areApart_of_pairwise (by decide +kernel),
    by decide +kernel, by decide +kernel⟩

end

end BlockModels
