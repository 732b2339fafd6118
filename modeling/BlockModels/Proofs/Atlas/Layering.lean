import BlockModels.Proofs.Atlas.Outlining
import BlockModels.Proofs.Scalar.Finite

/-!
# How often a colour is laid over a pixel

Sides and corners of a square have positions in common, and a line that runs over a position by
way of several of them lays its colour over the pixel that often. Of a pixel that was enlarged only
the corners of its square are on more than one of them, on two sides and the corner itself; of a
pixel that was not enlarged all eight are the pixel (`Outline.linesAt_le`). It does come to that:
the first pixel that can be seen in a region has nothing above it and nothing before it
(`Outline.exists_first`), so a line runs three times over the first position of its square
(`Outline.exists_three_le_linesAt`).

Layers upon layers make no difference if the colour hides what is under it
(`Outline.onto_congr_of_solid`).
-/

namespace BlockModels

namespace Outline

/-! ## At most -/

/-- A position in the square of a pixel is one of its corners. -/
def IsCorner (factor x y : Nat) : Prop :=
  (x = 0 ∨ x + 1 = factor) ∧ (y = 0 ∨ y + 1 = factor)

instance (factor x y : Nat) : Decidable (IsCorner factor x y) :=
  inferInstanceAs (Decidable (_ ∧ _))

/-- On how many sides and corners a position in the square of a pixel lies at most. -/
def mostLines (factor x y : Nat) : Nat :=
  if factor = 1 then 8 else if IsCorner factor x y then 3 else 1

/-- A pixel of an enlarged one is beside at most so many of its neighbours. -/
theorem countP_faces_le {factor x y : Nat} (hx : x < factor) (hy : y < factor) :
    (Step.around.countP fun s => s.faces factor x y) ≤ mostLines factor x y := by
  unfold mostLines IsCorner
  split
  · exact List.countP_le_length
  · simp only [Step.around, List.countP_cons, List.countP_nil, Step.faces, Step.leadsTo]
    grind

variable {α : Type} [Scalar α] {o : Outline α} {img : Image} {region : PixelBox} {x y : Nat}

/-- At most so many lines run over a position. -/
theorem linesAt_le (hfactor : 1 ≤ o.factor) :
    o.linesAt img region x y ≤ mostLines o.factor (x % o.factor) (y % o.factor) := by
  unfold linesAt
  split
  · refine le_trans (List.countP_mono_left fun s _ h => ?_)
      (countP_faces_le (Nat.mod_lt x hfactor) (Nat.mod_lt y hfactor))
    exact (Bool.and_eq_true_iff.1 h).1
  · exact Nat.zero_le _

/-! ## At least -/

omit [Scalar α] in
/-- Nothing can be seen beyond the left and upper side. -/
theorem shows_eq_false_of_neg {a b : Int} (h : a < 0 ∨ b < 0) :
    o.shows img region a b = false := by
  rw [Bool.eq_false_iff]
  intro hshows
  simp only [shows, Bool.and_eq_true, decide_eq_true_eq] at hshows
  omega

omit [Scalar α] in
/-- If anything can be seen in a region, then in the topmost row that has something there is a
first pixel: nothing can be seen above it, and nothing before it in its row. -/
theorem exists_first {c d : Nat} (h : o.shows img region c d = true) :
    ∃ a b : Nat, o.shows img region a b = true ∧ o.shows img region (a - 1) b = false ∧
      ∀ x : Int, o.shows img region x (b - 1) = false := by
  classical
  have hrow : ∃ b : Nat, ∃ a : Nat, o.shows img region a b = true := ⟨d, c, h⟩
  obtain ⟨b, hcolumn, hrows⟩ : ∃ b : Nat, (∃ a : Nat, o.shows img region a b = true) ∧
      ∀ b' < b, ¬∃ a : Nat, o.shows img region a b' = true :=
    ⟨Nat.find hrow, Nat.find_spec hrow, fun b' => Nat.find_min hrow⟩
  refine ⟨Nat.find hcolumn, b, Nat.find_spec hcolumn, ?_, fun x => ?_⟩
  · rcases Nat.eq_zero_or_pos (Nat.find hcolumn) with hzero | hpos
    · exact shows_eq_false_of_neg (.inl (by omega))
    · have hmin := Nat.find_min hcolumn (Nat.pred_lt hpos.ne')
      rwa [Bool.not_eq_true, Nat.pred_eq_sub_one, Nat.cast_pred hpos] at hmin
  · rcases Nat.eq_zero_or_pos b with rfl | hpos
    · exact shows_eq_false_of_neg (.inr (by omega))
    · rcases Int.lt_or_le x 0 with hneg | hnonneg
      · exact shows_eq_false_of_neg (.inl hneg)
      · have hnone := not_exists.1 (hrows (b - 1) (by omega)) x.toNat
        rwa [Bool.not_eq_true, Nat.cast_pred hpos, Int.toNat_of_nonneg hnonneg] at hnone

/-- Over the first position of the first pixel that can be seen lines run three times at least. -/
theorem exists_three_le_linesAt (hfactor : 1 ≤ o.factor) {c d : Nat}
    (h : o.shows img region c d = true) :
    ∃ x y, region.contains (x / o.factor) (y / o.factor) = true ∧
      3 ≤ o.linesAt img region x y := by
  obtain ⟨a, b, hshows, hbefore, habove⟩ := exists_first h
  refine ⟨a * o.factor, b * o.factor, ?_⟩
  simp only [linesAt, Nat.mul_div_cancel _ hfactor, Nat.mul_mod_left, hshows, if_true]
  refine ⟨contains_of_shows hshows, ?_⟩
  have hsome : [⟨-1, 0⟩, ⟨0, -1⟩, ⟨-1, -1⟩].Sublist Step.around := by decide
  refine le_trans ?_ hsome.countP_le
  rw [List.countP_eq_length.2]
  · rfl
  · intro s hs
    simp only [List.mem_cons, List.not_mem_nil, or_false] at hs
    rcases hs with rfl | rfl | rfl <;>
      simp [Step.faces, Step.leadsTo, ← Int.sub_eq_add_neg, hbefore, habove]

/-! ## Layers -/

/-- A pixel of the enlarged image is as it was, or has the colour of the lines laid over it once. -/
def LaysOnceAt (o : Outline α) (img : Image) (regions : List PixelBox) (x y : Nat) : Prop :=
  (o.draw img regions).get x y = img.get (x / o.factor) (y / o.factor) ∨
    (o.draw img regions).get x y = o.onto (img.get (x / o.factor) (y / o.factor))

/-- Over each pixel of the enlarged image the colour is laid at most once. -/
def LaysOnce (o : Outline α) (img : Image) (regions : List PixelBox) : Prop :=
  ∀ x y, x < img.width * o.factor → y < img.height * o.factor → o.LaysOnceAt img regions x y

/-- How often the colour of the lines is laid over each pixel of the enlarged image (`drawn`): in a
region as often as there are directions without anything to see on whose side or corner the position
lies (`inside`), elsewhere never (`outside`). Off the corners of the squares of enlarged pixels it
is laid at most once, in their corners at most three times, and over a pixel that was not enlarged
at most eight times (`most`, `once`). In each region that shows anything some pixel has it laid over it
three times (`thrice`), so that it is laid at most once everywhere only if there is nothing to see
(`once_iff`). -/
structure Layers (o : Outline α) (img : Image) (regions : List PixelBox) : Prop where
  drawn : ∀ x y, x < img.width * o.factor → y < img.height * o.factor →
    (o.draw img regions).get x y =
      o.onto^[(o.strokes img regions).count (x, y)] (img.get (x / o.factor) (y / o.factor))
  inside : ∀ region ∈ regions, ∀ x y, region.contains (x / o.factor) (y / o.factor) = true →
    (o.strokes img regions).count (x, y) = o.linesAt img region x y
  outside : ∀ x y,
    (∀ region ∈ regions, region.contains (x / o.factor) (y / o.factor) = false) →
      (o.strokes img regions).count (x, y) = 0
  most : ∀ x y,
    (o.strokes img regions).count (x, y) ≤ mostLines o.factor (x % o.factor) (y % o.factor)
  once : o.factor ≠ 1 → ∀ x y, x < img.width * o.factor → y < img.height * o.factor →
    ¬IsCorner o.factor (x % o.factor) (y % o.factor) → o.LaysOnceAt img regions x y
  thrice : ∀ region ∈ regions, ∀ a b : Nat, o.shows img region a b = true →
    ∃ x y, region.contains (x / o.factor) (y / o.factor) = true ∧
      3 ≤ (o.strokes img regions).count (x, y)
  once_iff : (∀ x y, (o.strokes img regions).count (x, y) ≤ 1) ↔
    ∀ region ∈ regions, ∀ a b : Nat, o.shows img region a b = false

/-- No line runs over a position outside all regions. -/
theorem count_strokes_of_forall_contains {regions : List PixelBox} (hfactor : 1 ≤ o.factor)
    (h : ∀ region ∈ regions, region.contains (x / o.factor) (y / o.factor) = false) :
    (o.strokes img regions).count (x, y) = 0 := by
  rw [count_strokes hfactor, List.sum_eq_zero_iff]
  intro n hn
  obtain ⟨region, hregion, rfl⟩ := List.mem_map.1 hn
  exact linesAt_of_contains_eq_false (h region hregion)

/-- Over a position of one region only its own lines run. -/
theorem count_strokes_le {regions : List PixelBox} (h : img.HasRegions regions)
    (hfactor : 1 ≤ o.factor) :
    (o.strokes img regions).count (x, y) ≤
      mostLines o.factor (x % o.factor) (y % o.factor) := by
  by_cases hin : ∃ region ∈ regions, region.contains (x / o.factor) (y / o.factor) = true
  · obtain ⟨region, hregion, hcontains⟩ := hin
    rw [count_strokes_of_contains h hfactor hregion hcontains]
    exact linesAt_le hfactor
  · have hout : ∀ region ∈ regions, region.contains (x / o.factor) (y / o.factor) = false :=
      fun region hregion => Bool.eq_false_iff.2 fun hcontains => hin ⟨region, hregion, hcontains⟩
    rw [count_strokes_of_forall_contains hfactor hout]
    exact Nat.zero_le _

/-- Where at most one line runs, the colour is laid on once. -/
theorem laysOnceAt_of_count_le {regions : List PixelBox} (h : img.HasRegions regions)
    (hfactor : 1 ≤ o.factor) (hx : x < img.width * o.factor) (hy : y < img.height * o.factor)
    (hle : (o.strokes img regions).count (x, y) ≤ 1) : o.LaysOnceAt img regions x y := by
  have hdrawn := get_draw h.inside hfactor hx hy
  rcases Nat.le_one_iff_eq_zero_or_eq_one.1 hle with hcount | hcount
  · rw [hcount, Function.iterate_zero, id] at hdrawn
    exact .inl hdrawn
  · rw [hcount, Function.iterate_one] at hdrawn
    exact .inr hdrawn

/-- How often the colour is laid on is the number of lines. -/
theorem layers_of_hasRegions [WholeScalar α] (o : Outline α) {regions : List PixelBox}
    (h : img.HasRegions regions) : o.Layers img regions := by
  have hfactor := o.one_le_factor
  have hthrice : ∀ region ∈ regions, ∀ a b : Nat, o.shows img region a b = true →
      ∃ x y, region.contains (x / o.factor) (y / o.factor) = true ∧
        3 ≤ (o.strokes img regions).count (x, y) := by
    intro region hregion a b hshows
    obtain ⟨x, y, hin, hthree⟩ := exists_three_le_linesAt hfactor hshows
    exact ⟨x, y, hin, by rwa [count_strokes_of_contains h hfactor hregion hin]⟩
  exact {
    drawn := fun x y hx hy => get_draw h.inside hfactor hx hy
    inside := fun region hregion x y hin => count_strokes_of_contains h hfactor hregion hin
    outside := fun x y hout => count_strokes_of_forall_contains hfactor hout
    most := fun x y => count_strokes_le h hfactor
    once := by
      intro hone x y hx hy hcorner
      have hle := count_strokes_le h hfactor (x := x) (y := y)
      rw [mostLines, if_neg hone, if_neg hcorner] at hle
      exact laysOnceAt_of_count_le h hfactor hx hy hle
    thrice := hthrice
    once_iff := by
      constructor
      · intro hle region hregion a b
        by_contra hshows
        rw [Bool.not_eq_false] at hshows
        obtain ⟨x, y, -, hthree⟩ := hthrice region hregion a b hshows
        have hone := hle x y
        omega
      · intro hnone x y
        have hzero : (o.strokes img regions).count (x, y) = 0 := by
          rw [List.count_eq_zero, mem_strokes_iff hfactor]
          rintro ⟨region, hregion, hshows, -⟩
          rw [hnone region hregion] at hshows
          cases hshows
        omega }

/-! ## Lines that hide what is under them -/

/-- If the colour hides what is under it, it makes the same of all pixels. -/
theorem onto_congr_of_solid {o : Outline Float} (h : Scalar.clamp 0 1 o.opacity = 1)
    (p q : Pixel) : o.onto p = o.onto q := by
  have hnone : (1 : Float) - 1 = 0 := by decide +kernel
  have hcolor : ∀ u : UInt8, (channel u : Float) * (1 - 1) = 0 := by
    intro u
    rw [hnone]
    exact Binary64.ofNat_mul_zero (u.toNat_lt.trans (by decide))
  have halpha : ∀ u : UInt8, 1 + (channel u : Float) / Scalar.ofNat 255 * (1 - 1) = 1 := by
    intro u
    have hfinite : Scalar.isFinite ((channel u : Float) / Scalar.ofNat 255) = true :=
      Binary64.isFinite_div_ofNat (u.toNat_lt.trans (by decide)) (by decide) (by decide)
    rw [hnone]
    -- The sign of a zero is lost when something is added.
    rcases Binary64.mul_zero_of_isFinite hfinite with hzero | hzero <;> rw [hzero] <;>
      decide +kernel
  simp only [onto, h, hcolor, halpha]

/-- A colour without transparency hides that it is laid on again. -/
theorem laysOnce_of_solid {o : Outline Float} {regions : List PixelBox}
    (h : img.HasRegions regions) (hsolid : Scalar.clamp 0 1 o.opacity = 1) :
    o.LaysOnce img regions := by
  intro x y hx hy
  have hdrawn := get_draw h.inside o.one_le_factor hx hy
  cases hcount : (o.strokes img regions).count (x, y) with
  | zero => exact laysOnceAt_of_count_le h o.one_le_factor hx hy (by omega)
  | succ n =>
    rw [hcount, Function.iterate_succ_apply'] at hdrawn
    exact .inr (hdrawn.trans (onto_congr_of_solid hsolid _ _))

end Outline

/-- The colour of the lines is laid over a pixel as often as there are sides and corners at its
position beyond which nothing can be seen; that is more than once somewhere, unless there is nothing
to see at all. It is as if it were laid once, if it hides what is under it. -/
theorem layers_of_lines (o : Outline Float) (img : Image) (regions : List PixelBox)
    (h : img.HasRegions regions) :
    o.Layers img regions ∧
      (Scalar.clamp 0 1 o.opacity = 1 → o.LaysOnce img regions) :=
  ⟨o.layers_of_hasRegions h, Outline.laysOnce_of_solid h⟩

/-- Around a single pixel that is enlarged, lines run three times over each corner of its square,
which is to be seen if the lines are faint. -/
theorem layers_of_lines_of_dot :
    let img : Image := .ofFn 1 1 fun _ _ => ⟨255, 255, 255, 255⟩
    let regions : List PixelBox := [⟨0, 0, 1, 1⟩]
    let faint : Outline Float := { width := 0.25, opacity := 0.5 }
    let full : Outline Float := { faint with opacity := 1 }
    img.HasRegions regions ∧ Scalar.clamp 0 1 full.opacity = 1 ∧
      faint.Layers img regions ∧ ¬faint.LaysOnce img regions ∧
        full.Layers img regions ∧ full.LaysOnce img regions := by
  intro img regions faint full
  have hregions : img.HasRegions regions := by
    refine ⟨fun region hregion => ?_, List.pairwise_singleton _ _⟩
    obtain rfl := List.mem_singleton.1 hregion
    exact Outline.isInside_of_le (by decide) (by decide)
  have hsolid : Scalar.clamp 0 1 full.opacity = 1 := by decide +kernel
  obtain ⟨hfaint, -⟩ := layers_of_lines faint img regions hregions
  obtain ⟨hfull, hfullOnce⟩ := layers_of_lines full img regions hregions
  refine ⟨hregions, hsolid, hfaint, fun hfaintOnce => ?_, hfull, hfullOnce hsolid⟩
  have hwithin : 0 < img.width * faint.factor ∧ 0 < img.height * faint.factor := by
    decide +kernel
  have hcorner : (faint.draw img regions).get 0 0 ≠ img.get 0 0 ∧
      (faint.draw img regions).get 0 0 ≠ faint.onto (img.get 0 0) := by decide +kernel
  rcases hfaintOnce 0 0 hwithin.1 hwithin.2 with hsame | honce
  · rw [Nat.zero_div] at hsame
    exact hcorner.1 hsame
  · rw [Nat.zero_div] at honce
    exact hcorner.2 honce

end BlockModels
