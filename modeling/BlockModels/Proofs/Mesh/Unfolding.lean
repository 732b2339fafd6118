import BlockModels.Mesh.Projection
import BlockModels.Proofs.Mesh.Texels

/-!
# A box unfolded on the texture

The faces of a box that is unfolded lie in two strips, down and up over the four sides
(`map_boxRect_uprights`, `map_boxRect_sides`). In a strip rectangles of one height lie side by side
(`Rect.sideBySide`): each ends before the next begins, and together they are one rectangle. So no
two faces share more than an edge, and nothing of the sheet is left but its two upper corners
(`boxRect_unfolds`).

That one rectangle ends before another begins does not depend on the unit in which both are counted
(`Rect.Precedes.normalized`), so the faces are apart in parts of every size of a texture. This is
exact arithmetic, and the box has an extent on every axis.
-/

namespace BlockModels

/-! ## Rectangles -/

namespace Rect

/-- Where a rectangle ends on the right. -/
def right (r : Rect Rat) : Rat := r.uv.x + r.size.x

/-- Where a rectangle ends at the bottom. -/
def bottom (r : Rect Rat) : Rat := r.uv.y + r.size.y

/-- The points of a rectangle, its edges included. -/
def extent (r : Rect Rat) : Set (ℝ × ℝ) :=
  Set.Icc (r.uv.x : ℝ) r.right ×ˢ Set.Icc (r.uv.y : ℝ) r.bottom

/-- Two rectangles have no more in common than edges. -/
def AreApart (r r' : Rect Rat) : Prop := Disjoint (interior r.extent) (interior r'.extent)

/-- A rectangle ends where the other one begins or before, on one of the two axes. -/
def Precedes (r r' : Rect Rat) : Prop := r.right ≤ r'.uv.x ∨ r.bottom ≤ r'.uv.y

variable {r r' : Rect Rat} {p : ℝ × ℝ}

/-- The interior of a rectangle is what lies strictly between its sides. -/
theorem interior_extent (r : Rect Rat) :
    interior r.extent = Set.Ioo (r.uv.x : ℝ) r.right ×ˢ Set.Ioo (r.uv.y : ℝ) r.bottom := by
  rw [extent, interior_prod_eq, interior_Icc, interior_Icc]

/-- Being apart does not depend on which rectangle is first. -/
theorem AreApart.symm (h : r.AreApart r') : r'.AreApart r := Disjoint.symm h

/-- A rectangle that ends before another begins is apart from it. -/
theorem Precedes.areApart (h : r.Precedes r') : r.AreApart r' := by
  have hIoo : ∀ {a b a' b' : Rat}, b ≤ a' → Disjoint (Set.Ioo (a : ℝ) b) (Set.Ioo (a' : ℝ) b') :=
    fun h => Set.disjoint_left.2 fun _ hp hp' =>
      (hp.2.trans_le (Rat.cast_le.2 h)).not_gt hp'.1
  rw [AreApart, interior_extent, interior_extent, Set.disjoint_prod]
  exact h.imp hIoo hIoo

/-- Division by a positive texture size keeps which rectangle ends first. -/
theorem Precedes.normalized {s : Vec2 Rat} (hx : 0 < s.x) (hy : 0 < s.y) (h : r.Precedes r') :
    (Cube.normalized s r).Precedes (Cube.normalized s r') := by
  simp only [Precedes, right, bottom, Cube.normalized, Vec2.zipWith, ← add_div] at h ⊢
  exact h.imp (div_le_div_of_nonneg_right · hx.le) (div_le_div_of_nonneg_right · hy.le)

/-! ## Side by side -/

/-- Rectangles of one height side by side, from a place on, with these widths. -/
def sideBySide (x y height : Rat) : List Rat → List (Rect Rat)
  | [] => []
  | width :: widths => ⟨⟨x, y⟩, ⟨width, height⟩⟩ :: sideBySide (x + width) y height widths

variable {x y height : Rat} {widths : List Rat}

/-- No rectangle of a strip begins before the strip, and all are as high as the strip. -/
theorem of_mem_sideBySide (hwidths : ∀ w ∈ widths, 0 ≤ w)
    (h : r ∈ sideBySide x y height widths) :
    x ≤ r.uv.x ∧ r.uv.y = y ∧ r.size.y = height := by
  induction widths generalizing x with
  | nil => cases h
  | cons width widths ih =>
    obtain ⟨hwidth, hwidths⟩ := List.forall_mem_cons.1 hwidths
    rcases List.mem_cons.1 h with rfl | h
    · exact ⟨le_rfl, rfl, rfl⟩
    · obtain ⟨hx, hrow⟩ := ih hwidths h
      exact ⟨(le_add_of_nonneg_right hwidth).trans hx, hrow⟩

/-- Of rectangles side by side, each ends where a later one begins, or before. -/
theorem pairwise_sideBySide (hwidths : ∀ w ∈ widths, 0 ≤ w) :
    (sideBySide x y height widths).Pairwise Precedes := by
  induction widths generalizing x with
  | nil => exact .nil
  | cons width widths ih =>
    obtain ⟨-, hwidths⟩ := List.forall_mem_cons.1 hwidths
    exact .cons (fun r hr => .inl (of_mem_sideBySide hwidths hr).1) (ih hwidths)

/-- The rectangles of a strip are together one rectangle, as wide as all of them. -/
theorem exists_mem_sideBySide_iff (hwidths : ∀ w ∈ widths, 0 ≤ w) (hne : widths ≠ []) :
    (∃ r ∈ sideBySide x y height widths, p ∈ r.extent) ↔
      p ∈ extent ⟨⟨x, y⟩, ⟨widths.sum, height⟩⟩ := by
  induction widths generalizing x with
  | nil => exact absurd rfl hne
  | cons width widths ih =>
    obtain ⟨hwidth, hwidths⟩ := List.forall_mem_cons.1 hwidths
    rcases eq_or_ne widths [] with rfl | hmore
    · simp only [sideBySide, List.mem_singleton, exists_eq_left, List.sum_singleton]
    · have hsum : 0 ≤ widths.sum := List.sum_nonneg hwidths
      -- The first rectangle ends where the rest of the strip begins.
      have hunion : Set.Icc (x : ℝ) (x + width : Rat) ∪
          Set.Icc ((x + width : Rat) : ℝ) (x + width + widths.sum : Rat) =
            Set.Icc (x : ℝ) (x + width + widths.sum : Rat) :=
        Set.Icc_union_Icc_eq_Icc (Rat.cast_le.2 (le_add_of_nonneg_right hwidth))
          (Rat.cast_le.2 (le_add_of_nonneg_right hsum))
      simp only [sideBySide, List.exists_mem_cons_iff, ih hwidths hmore, List.sum_cons]
      rw [← Set.mem_union, extent, extent, extent]
      simp only [right, bottom, ← Set.union_prod, ← add_assoc, hunion]

end Rect

/-! ## The box -/

/-- The faces in the upper strip, from left to right. -/
def Face.uprights : List Face := [.up, .down]

/-- The faces in the lower strip, from left to right. -/
def Face.sides : List Face := [.east, .north, .west, .south]

section

variable (anchor : Vec2 Rat) (box : Vec3 Rat)

/-- The sheet on which a box is unfolded. -/
def boxSheet : Rect Rat := ⟨anchor, ⟨2 * (box.x + box.z), box.z + box.y⟩⟩

/-- The two corners of the sheet beside down and up, as high and as wide as the box is deep. The
edges where they meet faces are not theirs. -/
def boxCorners : Set (ℝ × ℝ) :=
  (Set.Ico (anchor.x : ℝ) (anchor.x + box.z) ∪
    Set.Ioc (anchor.x + box.z + 2 * box.x : ℝ) (anchor.x + 2 * (box.x + box.z))) ×ˢ
    Set.Ico (anchor.y : ℝ) (anchor.y + box.z)

/-- The faces above and below lie side by side in the upper row. -/
theorem map_boxRect_uprights : Face.uprights.map (boxRect anchor box) =
    Rect.sideBySide (anchor.x + box.z) anchor.y box.z [box.x, box.x] := rfl

/-- The four sides lie side by side in the lower row. -/
theorem map_boxRect_sides : Face.sides.map (boxRect anchor box) =
    Rect.sideBySide anchor.x (anchor.y + box.z) box.y [box.z, box.x, box.z, box.x] := by
  have hsouth : anchor.x + 2 * box.z + box.x = anchor.x + box.z + box.x + box.z := by ring
  simp only [Face.sides, List.map_cons, List.map_nil, boxRect, Rect.sideBySide, Scalar.ofNat_rat,
    Nat.cast_ofNat, hsouth]

variable {anchor box} {f f' : Face}

/-- The upper strip ends where the sides begin. -/
theorem pairwise_boxRect (hbox : ∀ axis, 0 < box.get axis) :
    (Face.uprights ++ Face.sides).Pairwise fun f f' =>
      (boxRect anchor box f).Precedes (boxRect anchor box f') := by
  have hw : 0 < box.x := hbox .x
  have hd : 0 < box.z := hbox .z
  rw [← List.pairwise_map, List.map_append, map_boxRect_uprights, map_boxRect_sides]
  have hwidths : ∀ w ∈ [box.x, box.x], 0 ≤ w := by simp [hw.le]
  have hwidths' : ∀ w ∈ [box.z, box.x, box.z, box.x], 0 ≤ w := by simp [hw.le, hd.le]
  refine List.pairwise_append.2
    ⟨Rect.pairwise_sideBySide hwidths, Rect.pairwise_sideBySide hwidths', fun r hr r' hr' => ?_⟩
  obtain ⟨-, htop, hheight⟩ := Rect.of_mem_sideBySide hwidths hr
  obtain ⟨-, htop', -⟩ := Rect.of_mem_sideBySide hwidths' hr'
  exact .inr (by rw [Rect.bottom, htop, hheight, htop'])

/-- Of two faces of a box, the rectangle of one ends before that of the other begins. -/
theorem precedes_boxRect_or (hbox : ∀ axis, 0 < box.get axis) (hne : f ≠ f') :
    (boxRect anchor box f).Precedes (boxRect anchor box f') ∨
      (boxRect anchor box f').Precedes (boxRect anchor box f) := by
  have hmem : ∀ f : Face, f ∈ Face.uprights ++ Face.sides := fun f => by cases f <;> decide
  have hpairs : (Face.uprights ++ Face.sides).Pairwise fun f f' =>
      (boxRect anchor box f).Precedes (boxRect anchor box f') ∨
        (boxRect anchor box f').Precedes (boxRect anchor box f) :=
    (pairwise_boxRect hbox).imp Or.inl
  have : Std.Symm fun f f' =>
      (boxRect anchor box f).Precedes (boxRect anchor box f') ∨
        (boxRect anchor box f').Precedes (boxRect anchor box f) := ⟨fun _ _ h => h.symm⟩
  exact hpairs.forall (hmem f) (hmem f') hne

/-- The faces cover the two strips. -/
theorem iUnion_extent_boxRect (hbox : ∀ axis, 0 < box.get axis) :
    ⋃ f, (boxRect anchor box f).extent =
      Rect.extent ⟨⟨anchor.x + box.z, anchor.y⟩, ⟨2 * box.x, box.z⟩⟩ ∪
        Rect.extent ⟨⟨anchor.x, anchor.y + box.z⟩, ⟨2 * (box.x + box.z), box.y⟩⟩ := by
  have hw : 0 < box.x := hbox .x
  have hd : 0 < box.z := hbox .z
  ext p
  have hrow : (∃ r ∈ Face.uprights.map (boxRect anchor box), p ∈ r.extent) ↔
      p ∈ Rect.extent ⟨⟨anchor.x + box.z, anchor.y⟩, ⟨2 * box.x, box.z⟩⟩ := by
    rw [map_boxRect_uprights, Rect.exists_mem_sideBySide_iff (by simp [hw.le]) (by simp),
      List.sum_cons, List.sum_singleton, ← two_mul]
  have hrow' : (∃ r ∈ Face.sides.map (boxRect anchor box), p ∈ r.extent) ↔
      p ∈ Rect.extent ⟨⟨anchor.x, anchor.y + box.z⟩, ⟨2 * (box.x + box.z), box.y⟩⟩ := by
    have hsum : [box.z, box.x, box.z, box.x].sum = 2 * (box.x + box.z) := by
      simp only [List.sum_cons, List.sum_nil]
      ring
    rw [map_boxRect_sides, Rect.exists_mem_sideBySide_iff (by simp [hw.le, hd.le]) (by simp), hsum]
  rw [Set.mem_union, ← hrow, ← hrow', Set.mem_iUnion]
  simp only [List.mem_map, exists_exists_and_eq_and]
  constructor
  · rintro ⟨f, hf⟩
    cases f with
    | up | down => exact .inl ⟨_, by decide, hf⟩
    | east | north | west | south => exact .inr ⟨_, by decide, hf⟩
  · rintro (⟨f, -, hf⟩ | ⟨f, -, hf⟩)
    · exact ⟨f, hf⟩
    · exact ⟨f, hf⟩

/-- The rectangle of each face lies in the sheet. -/
theorem extent_boxRect_subset (hbox : ∀ axis, 0 < box.get axis) (f : Face) :
    (boxRect anchor box f).extent ⊆ (boxSheet anchor box).extent := by
  have hw : (0 : ℝ) < box.x := Rat.cast_pos.2 (hbox .x)
  have hh : (0 : ℝ) < box.y := Rat.cast_pos.2 (hbox .y)
  have hd : (0 : ℝ) < box.z := Rat.cast_pos.2 (hbox .z)
  refine (Set.subset_iUnion (fun f => (boxRect anchor box f).extent) f).trans ?_
  rw [iUnion_extent_boxRect hbox]
  rintro ⟨x, y⟩ hp
  simp only [Rect.extent, Rect.right, Rect.bottom, boxSheet, Set.mem_union, Set.mem_prod,
    Set.mem_Icc] at hp ⊢
  push_cast at hp ⊢
  rcases hp with ⟨⟨_, _⟩, _, _⟩ | ⟨⟨_, _⟩, _, _⟩
  · exact ⟨⟨by linarith, by linarith⟩, by linarith, by linarith⟩
  · exact ⟨⟨by linarith, by linarith⟩, by linarith, by linarith⟩

/-- What no face covers of the sheet are its two upper corners. -/
theorem boxSheet_diff_iUnion (hbox : ∀ axis, 0 < box.get axis) :
    (boxSheet anchor box).extent \ ⋃ f, (boxRect anchor box f).extent =
      boxCorners anchor box := by
  have hw : (0 : ℝ) < box.x := Rat.cast_pos.2 (hbox .x)
  have hh : (0 : ℝ) < box.y := Rat.cast_pos.2 (hbox .y)
  have hd : (0 : ℝ) < box.z := Rat.cast_pos.2 (hbox .z)
  rw [iUnion_extent_boxRect hbox]
  ext ⟨x, y⟩
  simp only [Rect.extent, Rect.right, Rect.bottom, boxSheet, boxCorners, Set.mem_sdiff,
    Set.mem_union, Set.mem_prod, Set.mem_Icc, Set.mem_Ico, Set.mem_Ioc]
  push_cast
  constructor
  · rintro ⟨⟨⟨hx, hx'⟩, hy, hy'⟩, hout⟩
    obtain ⟨hupper, hlower⟩ := not_or.1 hout
    -- Not among the sides, so above them, and there not on down or up.
    have habove : y < anchor.y + box.z := by
      by_contra hbelow
      exact hlower ⟨⟨hx, by linarith⟩, not_lt.1 hbelow, by linarith⟩
    refine ⟨?_, hy, habove⟩
    by_contra hbetween
    obtain ⟨hleft, hright⟩ := not_or.1 hbetween
    exact hupper ⟨⟨not_lt.1 fun h => hleft ⟨hx, h⟩,
      not_lt.1 fun h => hright ⟨h, by linarith⟩⟩, hy, habove.le⟩
  · rintro ⟨hx, hy, habove⟩
    refine ⟨⟨?_, hy, by linarith⟩, ?_⟩
    · rcases hx with ⟨hx, hx'⟩ | ⟨hx, hx'⟩
      · exact ⟨hx, by linarith⟩
      · exact ⟨by linarith, by linarith⟩
    · rintro (⟨⟨hleft, hright⟩, -⟩ | ⟨-, hbelow, -⟩)
      · rcases hx with ⟨-, hx⟩ | ⟨hx, -⟩
        · exact hleft.not_gt hx
        · exact hright.not_gt hx
      · exact hbelow.not_gt habove

end

/-! ## Cubes -/

namespace Cube

/-- A texture size is accepted if it is positive both ways. -/
theorem isTextureSize_iff {s : Vec2 Rat} : isTextureSize s = true ↔ 0 < s.x ∧ 0 < s.y := by
  simp [isTextureSize, Vec2.toList, Scalar.isFinite]

/-- The size on which a cube counts rectangles is positive, whatever is given. -/
theorem textureSize_pos (c : Cube Rat) : 0 < c.textureSize.value.x ∧ 0 < c.textureSize.value.y := by
  have hdefault : isTextureSize (defaultTextureSize : Vec2 Rat) = true := by decide +kernel
  rw [← isTextureSize_iff, textureSize]
  split
  · exact hdefault
  · split
    next h => exact h
    next => exact hdefault

/-- An accepted texture size is the one that is declared. -/
theorem textureSize_of_isTextureSize {c : Cube Rat} {s : Vec2 Rat} (h : c.look.textureSize = some s)
    (hs : isTextureSize s = true) : c.textureSize.value = s := by
  simp only [textureSize, h, hs, ↓reduceIte, Noted.value_pure]

/-- The faces of a cube that is unfolded as a box with an extent on every axis are apart. -/
theorem pairwise_faceRects {c : Cube Rat} {anchor : Vec2 Rat} (huv : c.look.boxUv = some anchor)
    (hbox : ∀ axis, 0 < (c.look.boxUvSize.getD c.size).get axis) :
    c.faceRects.value.Pairwise fun a b => a.2.AreApart b.2 := by
  obtain ⟨hx, hy⟩ := c.textureSize_pos
  have hnodup : (Face.listed.filter c.visibleFaces.contains).Nodup :=
    .filter _ (by decide : Face.listed.Nodup)
  simp only [faceRects, Noted.value_bind, Noted.value_pure, List.pairwise_map, faceRect, huv]
  refine hnodup.imp fun hne => ?_
  rcases precedes_boxRect_or hbox hne with h | h
  · exact (h.normalized hx hy).areApart
  · exact (h.normalized hx hy).areApart.symm

end Cube

/-- The faces of a box that is unfolded on the texture share no more than edges, lie on the sheet
and leave of it two corners. On a cube they are apart also in parts of the size of the texture. -/
theorem boxRect_unfolds {anchor : Vec2 Rat} {box : Vec3 Rat} (hbox : ∀ axis, 0 < box.get axis) :
    (Pairwise fun f f' => (boxRect anchor box f).AreApart (boxRect anchor box f')) ∧
      (∀ f, (boxRect anchor box f).extent ⊆ (boxSheet anchor box).extent) ∧
      (boxSheet anchor box).extent \ ⋃ f, (boxRect anchor box f).extent =
        boxCorners anchor box ∧
      ∀ c : Cube Rat, c.look.boxUv = some anchor → c.look.boxUvSize.getD c.size = box →
        (c.faceRects.value.Pairwise fun a b => a.2.AreApart b.2) ∧
          (∀ f ∈ c.visibleFaces, c.faceRects.value.lookup f =
            some (Cube.normalized c.textureSize.value (boxRect anchor box f))) ∧
          ∀ s, c.look.textureSize = some s → Cube.isTextureSize s = true →
            c.textureSize.value = s := by
  refine ⟨fun f f' hne => ?_, extent_boxRect_subset hbox, boxSheet_diff_iUnion hbox,
    fun c huv hsize => ⟨?_, fun f hf => ?_, fun s => Cube.textureSize_of_isTextureSize⟩⟩
  · rcases precedes_boxRect_or hbox hne with h | h
    · exact h.areApart
    · exact h.areApart.symm
  · exact Cube.pairwise_faceRects huv (hsize ▸ hbox)
  · rw [Cube.lookup_faceRects hf, Cube.faceRect, huv, hsize]

/-- A body that is twice as wide as it is deep, on a texture of 64 by 64. -/
theorem boxRect_unfolds_of_body :
    let anchor : Vec2 Rat := ⟨16, 16⟩
    let box : Vec3 Rat := ⟨8, 12, 4⟩
    let look : Template Rat := { boxUv := some anchor, textureSize := some ⟨64, 64⟩ }
    let cube : Cube Rat := { pos := .fill 0, size := box, look, shape := "body" }
    let sheet : Rect Rat := ⟨⟨16, 16⟩, ⟨24, 16⟩⟩
    (∀ axis, 0 < box.get axis) ∧
      (Pairwise fun f f' => (boxRect anchor box f).AreApart (boxRect anchor box f')) ∧
      (∀ f, (boxRect anchor box f).extent ⊆ sheet.extent) ∧
      sheet.extent \ ⋃ f, (boxRect anchor box f).extent =
        (Set.Ico 16 20 ∪ Set.Ioc 36 40) ×ˢ Set.Ico 16 20 ∧
      (cube.faceRects.value.Pairwise fun a b => a.2.AreApart b.2) ∧
      .south ∈ cube.visibleFaces ∧
      cube.faceRects.value.lookup .south = some ⟨⟨1 / 2, 5 / 16⟩, ⟨1 / 8, 3 / 16⟩⟩ := by
  intro anchor box look cube sheet
  have hbox : ∀ axis, 0 < box.get axis := fun axis => by cases axis <;> decide +kernel
  obtain ⟨hapart, hwithin, hcorners, hcubes⟩ := @boxRect_unfolds anchor box hbox
  obtain ⟨hrects, hlookup, hgiven⟩ := hcubes cube rfl rfl
  have hsheet : boxSheet anchor box = sheet := by decide +kernel
  have hvisible : Face.south ∈ cube.visibleFaces := by decide +kernel
  have hsquares : boxCorners anchor box = (Set.Ico 16 20 ∪ Set.Ioc 36 40) ×ˢ Set.Ico 16 20 := by
    norm_num [boxCorners, anchor, box]
  have hsouth : Cube.normalized ⟨64, 64⟩ (boxRect anchor box .south) =
      ⟨⟨1 / 2, 5 / 16⟩, ⟨1 / 8, 3 / 16⟩⟩ := by decide +kernel
  rw [hsheet] at hwithin hcorners
  have hrect := hlookup _ hvisible
  rw [hgiven _ rfl (by decide +kernel), hsouth] at hrect
  exact ⟨hbox, hapart, hwithin, hcorners.trans hsquares, hrects, hvisible, hrect⟩

end BlockModels
