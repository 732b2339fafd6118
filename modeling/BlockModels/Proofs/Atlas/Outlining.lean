import BlockModels.Proofs.Atlas.Checked
import Mathlib.Algebra.BigOperators.Group.List.Basic

/-!
# Where lines are drawn

A line runs over a position of an enlarged image if the pixel there can be seen in its region, and
the position lies on a side of the pixel's square, or in a corner of it, beyond which nothing can be
seen (`Outline.IsEdge`). How often it does is a matter of counting directions (`Outline.linesAt`),
and every time the colour is laid over the pixel once more (`Image.get_foldl_modify`). Everything
else is as it was enlarged, and since a line never leaves the square of its pixel, regions have
nothing to do with each other (`Outline.MarksEdges`).
-/

namespace BlockModels

/-! ## Positions of boxes -/

namespace PixelBox

/-- A box has no position twice. -/
theorem nodup_positions (b : PixelBox) : b.positions.Nodup := by
  have hrow : ∀ y : Nat, ((List.range' b.x b.width).map fun x => (x, y)).Nodup := fun y =>
    (List.nodup_range' 1).map fun x x' h => (Prod.mk.inj h).1
  refine List.nodup_flatMap.2 ⟨fun y _ => hrow y, (List.nodup_range' 1).imp fun {y y'} hne => ?_⟩
  rw [Function.onFun, List.disjoint_left]
  rintro p hp hp'
  obtain ⟨x, -, rfl⟩ := List.mem_map.1 hp
  obtain ⟨x', -, heq⟩ := List.mem_map.1 hp'
  exact hne (Prod.mk.inj heq).2.symm

/-- A box lists each of its positions once. -/
theorem count_positions (b : PixelBox) (x y : Nat) :
    b.positions.count (x, y) = if b.contains x y = true then 1 else 0 := by
  rw [b.nodup_positions.count]
  simp only [mem_positions]

/-- In the positions of several boxes one is as often as there are boxes that have it. -/
theorem count_flatMap_positions {β : Type} (box : β → PixelBox) (l : List β) (x y : Nat) :
    (l.flatMap fun e => (box e).positions).count (x, y) =
      l.countP fun e => (box e).contains x y := by
  induction l with
  | nil => rfl
  | cons e rest ih =>
    rw [List.flatMap_cons, List.count_append, count_positions, ih, List.countP_cons, Nat.add_comm]

/-- No position lies in both boxes. -/
def Apart (b c : PixelBox) : Prop := ∀ x y, b.contains x y = true → c.contains x y = false

end PixelBox

/-! ## Drawing pixel by pixel -/

namespace Image

/-- A change of one pixel is seen there only. -/
theorem get_modify {img : Image} {width height : Nat} (h : img.HasSize width height)
    (f : Pixel → Pixel) {a b x y : Nat} (ha : a < width) (hx : x < width) (hy : y < height) :
    (img.modify a b f).get x y = if (a, b) = (x, y) then f (img.get x y) else img.get x y := by
  have hsize : (img.modify a b f).HasSize width height := h
  have hindex : y * width + x < img.pixels.size := h.size_eq ▸ index_lt hx hy
  have hsame : b * width + a = y * width + x ↔ (a, b) = (x, y) := by
    rw [index_inj ha hx, Prod.mk.injEq, and_comm]
  rw [hsize.get_eq, h.get_eq]
  simp only [modify, Array.getD, Array.size_modify, hindex, dif_pos, Array.getInternal_eq_getElem,
    Array.getElem_modify, h.1, hsame]

/-- A pixel is changed as often as its position is listed. -/
theorem get_foldl_modify {width height : Nat} (f : Pixel → Pixel) {l : List (Nat × Nat)}
    (hl : ∀ p ∈ l, p.1 < width ∧ p.2 < height) {img : Image} (h : img.HasSize width height)
    {x y : Nat} (hx : x < width) (hy : y < height) :
    (l.foldl (fun img p => img.modify p.1 p.2 f) img).get x y =
      f^[l.count (x, y)] (img.get x y) := by
  induction l generalizing img with
  | nil => rfl
  | cons p rest ih =>
    obtain ⟨a, b⟩ := p
    have hmodify : (img.modify a b f).HasSize width height := h
    rw [List.foldl_cons, ih (fun p hp => hl p (List.mem_cons_of_mem _ hp)) hmodify,
      get_modify h f (hl _ List.mem_cons_self).1 hx hy, List.count_cons]
    by_cases heq : (a, b) = (x, y)
    · rw [if_pos heq, if_pos (beq_iff_eq.2 heq), Function.iterate_succ_apply]
    · rw [if_neg heq, if_neg (mt beq_iff_eq.1 heq), Nat.add_zero]

/-- An enlarged image shows at each position of a pixel's square the pixel. -/
theorem get_enlarged (img : Image) {factor : Nat} (hfactor : 1 ≤ factor) {x y : Nat}
    (hx : x < img.width * factor) (hy : y < img.height * factor) :
    (img.enlarged factor).get x y = img.get (x / factor) (y / factor) := by
  unfold enlarged
  split
  · next h =>
    obtain rfl : factor = 1 := by omega
    rw [Nat.div_one, Nat.div_one]
  · exact get_ofFn _ hx hy

/-- The regions lie in the image, and no position is in two of them. -/
structure HasRegions (img : Image) (regions : List PixelBox) : Prop where
  inside : ∀ region ∈ regions, Outline.IsInside region img
  apart : regions.Pairwise PixelBox.Apart

end Image

/-! ## Sides and corners -/

namespace Step

/-- The steps to the eight pixels around a pixel. -/
def around : List Step :=
  [⟨-1, 0⟩, ⟨1, 0⟩, ⟨0, -1⟩, ⟨0, 1⟩, ⟨-1, -1⟩, ⟨1, -1⟩, ⟨-1, 1⟩, ⟨1, 1⟩]

/-- On one axis of a square a place is at the end to which a direction leads. A direction that does
not lead along this axis leads to all of its places. -/
def leadsTo (factor : Nat) (direction : Int) (k : Nat) : Bool :=
  if direction < 0 then k == 0 else if 0 < direction then k + 1 == factor else true

/-- A position in a square lies on the side to which a step leads, or in the corner. -/
def faces (s : Step) (factor x y : Nat) : Bool :=
  leadsTo factor s.right x && leadsTo factor s.down y

end Step

namespace Outline

variable {α : Type} [Scalar α]

/-- The position of the enlarged image is part of a line: the pixel there can be seen in the region,
and the position lies on a side or in a corner of its square beyond which nothing can be seen. -/
def IsEdge (o : Outline α) (img : Image) (region : PixelBox) (x y : Nat) : Prop :=
  o.shows img region (x / o.factor : Nat) (y / o.factor : Nat) = true ∧
    ∃ s ∈ Step.around, s.faces o.factor (x % o.factor) (y % o.factor) = true ∧
      o.shows img region ((x / o.factor : Nat) + s.right) ((y / o.factor : Nat) + s.down) = false

instance (o : Outline α) (img : Image) (region : PixelBox) (x y : Nat) :
    Decidable (o.IsEdge img region x y) := inferInstanceAs (Decidable (_ ∧ _))

/-- In how many directions nothing can be seen beyond the side or the corner on which a position of
the enlarged image lies. -/
def linesAt (o : Outline α) (img : Image) (region : PixelBox) (x y : Nat) : Nat :=
  if o.shows img region (x / o.factor : Nat) (y / o.factor : Nat) then
    Step.around.countP fun s => s.faces o.factor (x % o.factor) (y % o.factor) &&
      !o.shows img region ((x / o.factor : Nat) + s.right) ((y / o.factor : Nat) + s.down)
  else 0

variable {o : Outline α} {img : Image} {region : PixelBox} {x y : Nat}

/-- A region lies in an image if it ends within it. -/
theorem isInside_of_le (hx : region.x + region.width ≤ img.width)
    (hy : region.y + region.height ≤ img.height) : IsInside region img := by
  intro x y hin
  obtain ⟨-, hx', -, hy'⟩ := PixelBox.contains_iff.1 hin
  exact ⟨by omega, by omega⟩

omit [Scalar α] in
/-- What can be seen of a region lies in it. -/
theorem contains_of_shows (h : o.shows img region (x : Nat) (y : Nat) = true) :
    region.contains x y = true := by
  simp only [shows, Bool.and_eq_true, Int.toNat_natCast] at h
  exact h.1.2

/-- No line of a region runs outside it. -/
theorem linesAt_of_contains_eq_false
    (h : region.contains (x / o.factor) (y / o.factor) = false) : o.linesAt img region x y = 0 := by
  rw [linesAt, if_neg]
  intro hshows
  rw [contains_of_shows hshows] at h
  cases h

/-- A line runs over a position exactly if it is at an edge. -/
theorem linesAt_pos_iff : 0 < o.linesAt img region x y ↔ o.IsEdge img region x y := by
  unfold linesAt IsEdge
  split
  · next h =>
    simp only [List.countP_pos_iff, Bool.and_eq_true, Bool.not_eq_true', h, true_and]
  · next h => exact iff_of_false (Nat.lt_irrefl 0) fun hedge => h hedge.1

/-- A box along a line has those positions of the pixel's square that lie in its direction. -/
theorem contains_edge_iff {factor a b : Nat} (hfactor : 1 ≤ factor) {e : Step × PixelBox}
    (he : e ∈ edges factor a b) : e.2.contains x y = true ↔
      (x / factor = a ∧ y / factor = b) ∧ e.1.faces factor (x % factor) (y % factor) = true := by
  -- In the square of a pixel a place is where the square begins and how far behind that.
  have hsquare : ∀ {n c : Nat}, c * factor ≤ n → n < c * factor + factor → n / factor = c := by
    intro n c hlow hhigh
    exact Nat.div_eq_of_lt_le hlow (by rw [Nat.add_mul, Nat.one_mul]; exact hhigh)
  have hx := Nat.div_add_mod' x factor
  have hy := Nat.div_add_mod' y factor
  have hx' := Nat.mod_lt x hfactor
  have hy' := Nat.mod_lt y hfactor
  rw [PixelBox.contains_iff]
  constructor
  · intro hin
    have hedge : a * factor ≤ x ∧ x < a * factor + factor ∧ b * factor ≤ y ∧
        y < b * factor + factor := by
      simp only [edges, List.mem_cons, List.not_mem_nil, or_false] at he
      rcases he with rfl | rfl | rfl | rfl | rfl | rfl | rfl | rfl <;> simp only at hin <;> omega
    obtain rfl := hsquare hedge.1 hedge.2.1
    obtain rfl := hsquare hedge.2.2.1 hedge.2.2.2
    refine ⟨⟨rfl, rfl⟩, ?_⟩
    simp only [edges, List.mem_cons, List.not_mem_nil, or_false] at he
    rcases he with rfl | rfl | rfl | rfl | rfl | rfl | rfl | rfl <;>
      simp [Step.faces, Step.leadsTo] at hin ⊢ <;> omega
  · rintro ⟨⟨rfl, rfl⟩, hfaces⟩
    simp only [edges, List.mem_cons, List.not_mem_nil, or_false] at he
    rcases he with rfl | rfl | rfl | rfl | rfl | rfl | rfl | rfl <;>
      simp [Step.faces, Step.leadsTo] at hfaces ⊢ <;> omega

/-- Around a pixel, lines run over a position of its square once for each direction in which nothing
can be seen and to which the position lies, and over no position elsewhere. -/
theorem count_pixelStrokes (hfactor : 1 ≤ o.factor) (a b : Nat) :
    (o.pixelStrokes img region a b).count (x, y) =
      if (a, b) = (x / o.factor, y / o.factor) then o.linesAt img region x y else 0 := by
  unfold pixelStrokes
  by_cases hshows : o.shows img region a b = true
  · rw [if_pos hshows, PixelBox.count_flatMap_positions, List.countP_filter]
    by_cases heq : (a, b) = (x / o.factor, y / o.factor)
    · obtain ⟨rfl, rfl⟩ := Prod.mk.inj heq
      have haround : Step.around =
          (edges o.factor (x / o.factor) (y / o.factor)).map Prod.fst := rfl
      rw [if_pos heq, linesAt, if_pos hshows, haround, List.countP_map]
      refine List.countP_congr fun e he => ?_
      simp only [Function.comp_apply, Bool.and_eq_true, contains_edge_iff hfactor he, true_and]
    · rw [if_neg heq, List.countP_eq_zero]
      intro e he hin
      rw [Bool.and_eq_true, contains_edge_iff hfactor he] at hin
      exact heq (Prod.ext hin.1.1.1.symm hin.1.1.2.symm)
  · rw [if_neg hshows, List.count_nil]
    split
    · next heq =>
      obtain ⟨rfl, rfl⟩ := Prod.mk.inj heq
      rw [linesAt, if_neg hshows]
    · rfl

/-- In a region only the pixel in whose square the position lies matters. -/
theorem count_regionStrokes (hfactor : 1 ≤ o.factor) :
    (region.positions.flatMap fun p => o.pixelStrokes img region p.1 p.2).count (x, y) =
      o.linesAt img region x y := by
  rw [List.count_flatMap, List.sum_map_eq_nsmul_single (x / o.factor, y / o.factor)]
  · rw [@List.Nodup.count _ instBEqOfDecidableEq _ _ _ region.nodup_positions,
      Function.comp_apply, count_pixelStrokes hfactor, if_pos rfl]
    simp only [PixelBox.mem_positions]
    split
    · rw [one_nsmul]
    · next h => rw [zero_nsmul, linesAt_of_contains_eq_false (Bool.eq_false_iff.2 h)]
  · rintro p hne -
    rw [Function.comp_apply, count_pixelStrokes hfactor, if_neg hne]

/-- How often lines run over a position is added up over the regions. -/
theorem count_strokes (hfactor : 1 ≤ o.factor) (regions : List PixelBox) :
    (o.strokes img regions).count (x, y) =
      (regions.map fun region => o.linesAt img region x y).sum := by
  rw [strokes, List.count_flatMap]
  exact congrArg List.sum (List.map_congr_left fun region _ => count_regionStrokes hfactor)

/-- Lines run over the positions that are edges of some region. -/
theorem mem_strokes_iff (hfactor : 1 ≤ o.factor) {regions : List PixelBox} :
    (x, y) ∈ o.strokes img regions ↔ ∃ region ∈ regions, o.IsEdge img region x y := by
  rw [← List.count_pos_iff, count_strokes hfactor, Nat.pos_iff_ne_zero, ne_eq, List.sum_eq_zero_iff]
  simp only [List.mem_map, forall_exists_index, and_imp, forall_apply_eq_imp_iff₂, not_forall,
    ← Nat.pos_iff_ne_zero, linesAt_pos_iff, exists_prop]

/-! ## Regions apart -/

/-- Of regions that share no position, the one with the pixel says how often lines run over a
position of the pixel's square. -/
theorem sum_linesAt {regions : List PixelBox} (hapart : regions.Pairwise PixelBox.Apart)
    (hregion : region ∈ regions)
    (hin : region.contains (x / o.factor) (y / o.factor) = true) :
    (regions.map fun region => o.linesAt img region x y).sum = o.linesAt img region x y := by
  induction regions with
  | nil => cases hregion
  | cons first rest ih =>
    obtain ⟨hfirst, hrest⟩ := List.pairwise_cons.1 hapart
    rw [List.map_cons, List.sum_cons]
    rcases List.mem_cons.1 hregion with rfl | hmem
    · have hzero : (rest.map fun other => o.linesAt img other x y).sum = 0 := by
        refine List.sum_eq_zero fun n hn => ?_
        obtain ⟨other, hother, rfl⟩ := List.mem_map.1 hn
        exact linesAt_of_contains_eq_false (hfirst other hother _ _ hin)
      rw [hzero, Nat.add_zero]
    · have hfalse : first.contains (x / o.factor) (y / o.factor) = false := by
        by_contra hcontains
        rw [hfirst region hmem _ _ (Bool.not_eq_false _ ▸ hcontains)] at hin
        cases hin
      rw [linesAt_of_contains_eq_false hfalse, Nat.zero_add, ih hrest hmem]

omit [Scalar α] in
/-- What can be seen in a region depends on the pixels of the region alone. -/
theorem shows_congr {img' : Image}
    (h : ∀ a b, region.contains a b = true → img'.get a b = img.get a b) (a b : Int) :
    o.shows img' region a b = o.shows img region a b := by
  unfold shows
  cases hin : region.contains a.toNat b.toNat with
  | false => simp only [Bool.and_false, Bool.false_and]
  | true => rw [Image.alpha, Image.alpha, h _ _ hin]

/-- Lines depend on the pixels of their region only. -/
theorem linesAt_congr {img' : Image}
    (h : ∀ a b, region.contains a b = true → img'.get a b = img.get a b) (x y : Nat) :
    o.linesAt img' region x y = o.linesAt img region x y := by
  simp only [linesAt, shows_congr h]

/-- Drawing changes a pixel as often as lines run over it. -/
theorem get_draw {regions : List PixelBox} (h : ∀ region ∈ regions, IsInside region img)
    (hfactor : 1 ≤ o.factor) (hx : x < img.width * o.factor) (hy : y < img.height * o.factor) :
    (o.draw img regions).get x y =
      o.onto^[(o.strokes img regions).count (x, y)] (img.get (x / o.factor) (y / o.factor)) := by
  rw [← img.get_enlarged hfactor hx hy]
  exact Image.get_foldl_modify o.onto (fun p hp => lt_of_mem_strokes h hfactor hp)
    (hasSize_enlarged img hfactor) hx hy

/-- Lines mark the edges of what can be seen in the regions of an image. They run over these and no
other positions (`mem_iff`), all of them positions of the enlarged image (`within`), so that nothing
is read or written outside (`checked`). A pixel has the colour laid over it as often as lines run
over its position (`drawn`), and all others are as they were enlarged (`kept`). Inside a region
everything is the same on every image of the same size that has the region and its pixels, whatever
other regions and pixels that image has (`separate`). -/
structure MarksEdges (o : Outline α) (img : Image) (regions : List PixelBox) : Prop where
  mem_iff : ∀ x y, (x, y) ∈ o.strokes img regions ↔ ∃ region ∈ regions, o.IsEdge img region x y
  within : ∀ p ∈ o.strokes img regions, p.1 < img.width * o.factor ∧ p.2 < img.height * o.factor
  checked : o.draw? img regions = some (o.draw img regions)
  size : (o.draw img regions).HasSize (img.width * o.factor) (img.height * o.factor)
  drawn : ∀ x y, x < img.width * o.factor → y < img.height * o.factor →
    (o.draw img regions).get x y =
      o.onto^[(o.strokes img regions).count (x, y)] (img.get (x / o.factor) (y / o.factor))
  kept : ∀ x y, x < img.width * o.factor → y < img.height * o.factor →
    (∀ region ∈ regions, ¬o.IsEdge img region x y) →
      (o.draw img regions).get x y = img.get (x / o.factor) (y / o.factor)
  separate : ∀ region ∈ regions, ∀ (img' : Image) (regions' : List PixelBox),
    img'.HasSize img.width img.height → img'.HasRegions regions' → region ∈ regions' →
    (∀ a b, region.contains a b = true → img'.get a b = img.get a b) →
      ∀ x y, region.contains (x / o.factor) (y / o.factor) = true →
        ((x, y) ∈ o.strokes img' regions' ↔ (x, y) ∈ o.strokes img regions) ∧
          (o.draw img' regions').get x y = (o.draw img regions).get x y

/-- Inside a region lines run as often over a position as the region says. -/
theorem count_strokes_of_contains {regions : List PixelBox} (h : img.HasRegions regions)
    (hfactor : 1 ≤ o.factor) (hregion : region ∈ regions)
    (hin : region.contains (x / o.factor) (y / o.factor) = true) :
    (o.strokes img regions).count (x, y) = o.linesAt img region x y := by
  rw [count_strokes hfactor, sum_linesAt h.apart hregion hin]

/-- A position in the square of a pixel of a region is one of the enlarged image. -/
theorem lt_of_contains (h : IsInside region img) (hfactor : 1 ≤ o.factor)
    (hin : region.contains (x / o.factor) (y / o.factor) = true) :
    x < img.width * o.factor ∧ y < img.height * o.factor := by
  obtain ⟨hx, hy⟩ := h _ _ hin
  exact ⟨(Nat.div_lt_iff_lt_mul hfactor).1 hx, (Nat.div_lt_iff_lt_mul hfactor).1 hy⟩

/-- Lines mark the edges, and change nothing else. -/
theorem marksEdges_of_hasRegions [WholeScalar α] (o : Outline α) {regions : List PixelBox}
    (h : img.HasRegions regions) : o.MarksEdges img regions := by
  have hfactor := o.one_le_factor
  exact {
    mem_iff := fun x y => mem_strokes_iff hfactor
    within := fun p hp => lt_of_mem_strokes h.inside hfactor hp
    checked := draw?_eq_some h.inside hfactor
    size := hasSize_draw img regions hfactor
    drawn := fun x y hx hy => get_draw h.inside hfactor hx hy
    kept := by
      intro x y hx hy hnone
      have hcount : (o.strokes img regions).count (x, y) = 0 := by
        rw [List.count_eq_zero, mem_strokes_iff hfactor]
        rintro ⟨region, hregion, hedge⟩
        exact hnone region hregion hedge
      rw [get_draw h.inside hfactor hx hy, hcount, Function.iterate_zero, id]
    separate := by
      intro region hregion img' regions' hsize h' hregion' hpixels x y hin
      have hcount : (o.strokes img' regions').count (x, y) =
          (o.strokes img regions).count (x, y) := by
        rw [count_strokes_of_contains h hfactor hregion hin,
          count_strokes_of_contains h' hfactor hregion' hin, linesAt_congr hpixels]
      obtain ⟨hx, hy⟩ := lt_of_contains (h.inside region hregion) hfactor hin
      refine ⟨by rw [← List.count_pos_iff, ← List.count_pos_iff, hcount], ?_⟩
      rw [get_draw h.inside hfactor hx hy, get_draw h'.inside hfactor (by rwa [hsize.1])
        (by rwa [hsize.2]), hcount, hpixels _ _ hin] }

end Outline

/-! ## Atlases -/

namespace Atlas

variable {α : Type} [Scalar α] {fragments : List (ImageFragment α)}

/-- On an atlas that was composed, the regions of its fragments lie apart. -/
theorem hasRegions_of_plain? {a : Atlas α} (h : plain? fragments (packing fragments) = some a) :
    a.image.HasRegions (regions fragments (packing fragments)) where
  inside := fun _ hregion => isInside_of_mem_regions h hregion
  apart := by
    rw [regions, slots, List.map_map, List.pairwise_map, List.pairwise_iff_getElem]
    intro i j hi hj hij x y hin
    by_contra hin'
    rw [Bool.not_eq_false] at hin'
    simp only [Function.comp_apply, List.getElem_zipIdx, Nat.zero_add] at hin hin'
    rw [List.length_zipIdx] at hi hj
    exact hij.ne (eq_of_regionOf_contains (List.getElem?_eq_getElem hi)
      (List.getElem?_eq_getElem hj) hin hin')

end Atlas

/-- Lines are drawn over exactly those positions of an enlarged image that lie on a side or in a
corner of a visible pixel beyond which nothing can be seen in the pixel's region; nothing else of
the image changes, and no region has to do with another one. The regions of an atlas are such
regions. -/
theorem lines_markEdges :
    (∀ (o : Outline Float) (img : Image) (regions : List PixelBox), img.HasRegions regions →
      o.MarksEdges img regions) ∧
    ∀ (fragments : List (ImageFragment Float)) (a : Atlas Float),
      Atlas.plain? fragments (Atlas.packing fragments) = some a →
        a.image.HasRegions (Atlas.regions fragments (Atlas.packing fragments)) :=
  ⟨fun o _ _ h => o.marksEdges_of_hasRegions h, fun _ _ h => Atlas.hasRegions_of_plain? h⟩

/-- Two pixels side by side in different regions: there is a line between them. -/
theorem lines_markEdges_of_neighbours :
    let dot : Pixel := ⟨255, 255, 255, 255⟩
    let img := Image.ofFn 3 2 fun x y => if 1 ≤ x ∧ y = 0 then dot else .transparent
    let regions : List PixelBox := [⟨0, 0, 2, 2⟩, ⟨2, 0, 1, 2⟩]
    let o : Outline Float := { width := 0.5, opacity := 0.5 }
    let f : ImageFragment Float := ⟨img, ⟨⟨1, 0⟩, ⟨2, 1⟩⟩, none⟩
    img.HasRegions regions ∧ o.MarksEdges img regions ∧ o.factor = 2 ∧
      o.IsEdge img ⟨0, 0, 2, 2⟩ 3 1 ∧ ¬o.IsEdge img ⟨0, 0, 2, 2⟩ 4 1 ∧
        ∃ a, Atlas.plain? [f] (Atlas.packing [f]) = some a ∧
          a.image.HasRegions (Atlas.regions [f] (Atlas.packing [f])) := by
  intro dot img regions o f
  have hregions : img.HasRegions regions := by
    refine ⟨fun region hregion => ?_, List.pairwise_pair.2 fun x y hin => ?_⟩
    · simp only [regions, List.mem_cons, List.not_mem_nil, or_false] at hregion
      rcases hregion with rfl | rfl <;> exact Outline.isInside_of_le (by decide) (by decide)
    · rw [Bool.eq_false_iff, ne_eq, PixelBox.contains_iff]
      have hleft := (PixelBox.contains_iff.1 hin).2.1
      simp only at hleft ⊢
      omega
  have hfactor : o.factor = 2 := by decide +kernel
  have hedge : o.IsEdge img ⟨0, 0, 2, 2⟩ 3 1 := by decide +kernel
  have hother : ¬o.IsEdge img ⟨0, 0, 2, 2⟩ 4 1 := by decide +kernel
  have hplain : (Atlas.plain? [f] (Atlas.packing [f])).isSome = true := by decide +kernel
  obtain ⟨a, ha⟩ := Option.isSome_iff_exists.1 hplain
  exact ⟨hregions, lines_markEdges.1 o img regions hregions, hfactor, hedge, hother, a, ha,
    lines_markEdges.2 [f] a ha⟩

end BlockModels
