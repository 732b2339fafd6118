import BlockModels.Proofs.Atlas.Compositing

/-!
# Nothing is read or written outside

The library reads a pixel that an image does not have as transparent, and leaves an image alone that
lacks the pixel to be changed. Here is the atlas once more with every access checked
(`Atlas.checked?`): a pixel that is not there has no value, writing to one has no result, and
neither has a difference of natural numbers below zero. The two agree (`Atlas.checked?_eq`), so
there is an atlas unless a row cannot be copied, and the only rows that cannot are those without
pixels (`Atlas.eq_none_iff`): a footprint that is empty across, but higher than the atlas, begins a
row below the last one.
-/

namespace BlockModels

/-- The positions of a box are those that it contains. -/
theorem PixelBox.mem_positions {b : PixelBox} {x y : Nat} :
    (x, y) ∈ b.positions ↔ b.contains x y = true := by
  rw [PixelBox.contains_iff]
  simp only [PixelBox.positions, List.mem_flatMap, List.mem_map, List.mem_range'_1, Prod.mk.injEq]
  constructor
  · rintro ⟨v, hv, u, hu, rfl, rfl⟩
    omega
  · rintro h
    exact ⟨y, by omega, x, by omega, rfl, rfl⟩

/-! ## Images with checks -/

namespace Image

/-- The pixel at a position, if the image has one there. -/
def get? (img : Image) (x y : Nat) : Option Pixel := img.pixels[img.index x y]?

/-- The image with another pixel at a place, if it has one there. -/
def put? (img : Image) (i : Nat) (p : Pixel) : Option Image :=
  if i < img.pixels.size then some (img.put i p) else none

/-- The image with another pixel at a position, if it has one there. -/
def modify? (img : Image) (x y : Nat) (f : Pixel → Pixel) : Option Image :=
  if img.index x y < img.pixels.size then some (img.modify x y f) else none

/-- The image with given pixels, put there one by one. -/
def ofFn? (width height : Nat) (f? : Nat → Nat → Option Pixel) : Option Image :=
  (PixelBox.mk 0 0 width height).positions.foldlM
    (fun canvas p => do canvas.put? (canvas.index p.1 p.2) (← f? p.1 p.2))
    (.fill width height .transparent)

/-- An image, every pixel of which has become a square of pixels. -/
def enlarged? (img : Image) (factor : Nat) : Option Image :=
  if factor ≤ 1 then some img
  else
    ofFn? (img.width * factor) (img.height * factor) fun x y => img.get? (x / factor) (y / factor)

variable {img : Image} {x y : Nat}

/-- The index of a pixel in an image is within its pixels. -/
theorem index_lt_size (hx : x < img.width) (hy : y < img.height) :
    img.index x y < img.pixels.size := by
  rw [img.size_pixels]
  exact index_lt hx hy

/-- A pixel of an image is found by a checked access. -/
theorem get?_eq_some (hx : x < img.width) (hy : y < img.height) :
    img.get? x y = some (img.get x y) := by
  have hlt := index_lt_size hx hy
  simp [get?, get, Array.getD, hlt]

/-- A checked change succeeds within the pixels. -/
theorem put?_eq_some {i : Nat} (p : Pixel) (h : i < img.pixels.size) :
    img.put? i p = some (img.put i p) :=
  if_pos h

/-- A checked change of a pixel succeeds in the image. -/
theorem modify?_eq_some (f : Pixel → Pixel) (hx : x < img.width) (hy : y < img.height) :
    img.modify? x y f = some (img.modify x y f) :=
  if_pos (index_lt_size hx hy)

/-- Images of the same size are equal if they have the same pixels. -/
theorem ext_get {img' : Image} {width height : Nat} (h : img.HasSize width height)
    (h' : img'.HasSize width height)
    (hget : ∀ x < width, ∀ y < height, img.get x y = img'.get x y) : img = img' := by
  have hpixels : img.pixels = img'.pixels := by
    refine Array.ext (by rw [h.size_eq, h'.size_eq]) fun i hi hi' => ?_
    have hlt : i < width * height := h.size_eq ▸ hi
    have hwidth : 0 < width := Nat.pos_of_ne_zero fun hz => by rw [hz, Nat.zero_mul] at hlt; omega
    have hindex : i / width * width + i % width = i := Nat.div_add_mod' i width
    have hpixel := hget (i % width) (Nat.mod_lt _ hwidth) (i / width)
      (Nat.div_lt_of_lt_mul hlt)
    rw [get, get, index, index, h.1, h'.1, hindex] at hpixel
    simpa [Array.getD, hi, hi'] using hpixel
  cases img
  cases img'
  cases hpixels
  obtain ⟨rfl, rfl⟩ := h
  obtain ⟨rfl, rfl⟩ := h'
  rfl

/-- An image that is made by a function has its pixels. -/
theorem get_ofFn {width height : Nat} (f : Nat → Nat → Pixel) (hx : x < width) (hy : y < height) :
    (ofFn width height f).get x y = f x y := by
  have hlt : y * width + x < width * height := index_lt hx hy
  have hmod : (y * width + x) % width = x := by
    rw [Nat.mul_comm, Nat.mul_add_mod, Nat.mod_eq_of_lt hx]
  have hdiv : (y * width + x) / width = y := by
    rw [Nat.mul_comm, Nat.mul_add_div (by omega), Nat.div_eq_of_lt hx, Nat.add_zero]
  simp [get, index, ofFn, Array.getD, hlt, hmod, hdiv]

/-- Pixels that are put at positions of an image are found there. -/
theorem get_foldl_put {width height : Nat} (f : Nat → Nat → Pixel) {l : List (Nat × Nat)}
    (hl : ∀ p ∈ l, p.1 < width ∧ p.2 < height) {img : Image} (h : img.HasSize width height)
    {x y : Nat} (hx : x < width) (hy : y < height) :
    (l.foldl (fun img p => img.put (img.index p.1 p.2) (f p.1 p.2)) img).get x y =
      if (x, y) ∈ l then f x y else img.get x y := by
  induction l generalizing img with
  | nil => rfl
  | cons p rest ih =>
    obtain ⟨a, b⟩ := p
    obtain ⟨ha, hb⟩ := hl _ List.mem_cons_self
    have hput : (img.put (img.index a b) (f a b)).HasSize width height := h
    have hsame : b * width + a = y * width + x ↔ b = y ∧ a = x := index_inj ha hx
    have hget : (img.put (img.index a b) (f a b)).get x y =
        if b = y ∧ a = x then f a b else img.get x y := by
      rw [hput.get_eq, getD_put _ _ (h.size_eq ▸ index_lt hx hy), h.index_eq, h.get_eq]
      simp only [hsame]
    rw [List.foldl_cons, ih (fun p hp => hl p (List.mem_cons_of_mem _ hp)) hput, hget]
    by_cases hrest : (x, y) ∈ rest
    · rw [if_pos hrest, if_pos (List.mem_cons_of_mem _ hrest)]
    · rw [if_neg hrest]
      by_cases heq : b = y ∧ a = x
      · obtain ⟨rfl, rfl⟩ := heq
        rw [if_pos ⟨rfl, rfl⟩, if_pos List.mem_cons_self]
      · rw [if_neg heq, if_neg]
        rintro hmem
        rcases List.mem_cons.1 hmem with hp | hp
        · cases hp
          exact heq ⟨rfl, rfl⟩
        · exact hrest hp

/-- An image is made with checks if each of its pixels is found. -/
theorem ofFn?_eq_some {width height : Nat} {f? : Nat → Nat → Option Pixel} {f : Nat → Nat → Pixel}
    (hf : ∀ x < width, ∀ y < height, f? x y = some (f x y)) :
    ofFn? width height f? = some (ofFn width height f) := by
  have hmem : ∀ {x y : Nat}, (x, y) ∈ (PixelBox.mk 0 0 width height).positions ↔
      x < width ∧ y < height := by
    intro x y
    rw [PixelBox.mem_positions, PixelBox.contains_iff]
    simp only
    omega
  have hblank : (fill width height .transparent).HasSize width height := hasSize_fill _ _ _
  have hstep : ∀ canvas : Image, canvas.HasSize width height →
      ∀ p ∈ (PixelBox.mk 0 0 width height).positions,
        (do canvas.put? (canvas.index p.1 p.2) (← f? p.1 p.2)) =
          some (canvas.put (canvas.index p.1 p.2) (f p.1 p.2)) := by
    intro canvas hcanvas p hp
    obtain ⟨hx, hy⟩ := hmem.1 hp
    rw [hf _ hx _ hy, Option.bind_eq_bind, Option.bind_some, hcanvas.index_eq]
    exact put?_eq_some _ (hcanvas.size_eq ▸ index_lt hx hy)
  rw [ofFn?, foldlM_eq_some _ hstep (fun canvas p hcanvas => hcanvas) hblank]
  have hsize : ((PixelBox.mk 0 0 width height).positions.foldl
      (fun canvas p => canvas.put (canvas.index p.1 p.2) (f p.1 p.2))
      (fill width height .transparent)).HasSize width height := by
    refine hblank.foldl (fun canvas p hcanvas => ?_) _
    exact hcanvas
  refine congrArg some (ext_get hsize ⟨rfl, rfl⟩ fun x hx y hy => ?_)
  rw [get_foldl_put f (fun p hp => hmem.1 hp) hblank hx hy, get_ofFn _ hx hy,
    if_pos (hmem.2 ⟨hx, hy⟩)]

/-- An image can always be enlarged. -/
theorem enlarged?_eq (img : Image) (factor : Nat) :
    img.enlarged? factor = some (img.enlarged factor) := by
  unfold enlarged? enlarged
  by_cases hfactor : factor ≤ 1
  · rw [if_pos hfactor, if_pos hfactor]
  · rw [if_neg hfactor, if_neg hfactor]
    refine ofFn?_eq_some fun x hx y hy => get?_eq_some ?_ ?_
    · exact Nat.div_lt_of_lt_mul (Nat.mul_comm _ _ ▸ hx)
    · exact Nat.div_lt_of_lt_mul (Nat.mul_comm _ _ ▸ hy)

end Image

/-! ## Outlines with checks -/

namespace Outline

variable {α : Type}

/-- Something can be seen at a position of a region; only there is the image looked at. -/
def shows? (o : Outline α) (img : Image) (region : PixelBox) (x y : Int) : Option Bool :=
  if decide (0 ≤ x) && decide (0 ≤ y) && region.contains x.toNat y.toNat then do
    return decide (o.threshold ≤ (← img.get? x.toNat y.toNat).a)
  else some false

/-- The region lies in the image. -/
def IsInside (region : PixelBox) (img : Image) : Prop :=
  ∀ x y, region.contains x y = true → x < img.width ∧ y < img.height

/-- In a region that lies in the image, every look succeeds. -/
theorem shows?_eq_some {o : Outline α} {img : Image} {region : PixelBox}
    (h : IsInside region img) (x y : Int) :
    o.shows? img region x y = some (o.shows img region x y) := by
  unfold shows? shows
  cases hin : decide (0 ≤ x) && decide (0 ≤ y) && region.contains x.toNat y.toNat with
  | false => simp
  | true =>
    have hcontains : region.contains x.toNat y.toNat = true := (Bool.and_eq_true _ _ ▸ hin).2
    obtain ⟨hx, hy⟩ := h _ _ hcontains
    simp only [if_true, Image.get?_eq_some hx hy, Option.bind_eq_bind, Option.bind_some,
      Bool.true_and]
    rfl

variable [Scalar α] (o : Outline α)

/-- The boxes over which a line runs if nothing can be seen in a direction. -/
def edges? (factor x y : Nat) : Option (List (Step × PixelBox)) := do
  let left := x * factor
  let top := y * factor
  let right ← subWord? (left + factor) 1
  let bottom ← subWord? (top + factor) 1
  let inner ← subWord? factor 1
  return [(⟨-1, 0⟩, ⟨left, top, 1, factor⟩), (⟨1, 0⟩, ⟨right, top, 1, factor⟩),
    (⟨0, -1⟩, ⟨left, top, factor, 1⟩), (⟨0, 1⟩, ⟨left, bottom, factor, 1⟩),
    (⟨-1, -1⟩, ⟨left, top, 1, 1⟩), (⟨1, -1⟩, ⟨left + inner, top, 1, 1⟩),
    (⟨-1, 1⟩, ⟨left, top + inner, 1, 1⟩), (⟨1, 1⟩, ⟨left + inner, top + inner, 1, 1⟩)]

/-- The positions over which lines run around one pixel. -/
def pixelStrokes? (img : Image) (region : PixelBox) (x y : Nat) : Option (List (Nat × Nat)) := do
  if ← o.shows? img region x y then
    let strokes ← (← edges? o.factor x y).mapM fun e => do
      return if ← o.shows? img region (x + e.1.right) (y + e.1.down) then [] else e.2.positions
    return strokes.flatten
  else return []

/-- The positions over which lines run, in the order in which they are drawn. -/
def strokes? (img : Image) (regions : List PixelBox) : Option (List (Nat × Nat)) := do
  let strokes ← regions.mapM fun region => do
    let strokes ← region.positions.mapM fun p => o.pixelStrokes? img region p.1 p.2
    return strokes.flatten
  return strokes.flatten

/-- An image enlarged, with lines around what can be seen in its regions. -/
def draw? (img : Image) (regions : List PixelBox) : Option Image := do
  let strokes ← o.strokes? img regions
  strokes.foldlM (fun canvas p => canvas.modify? p.1 p.2 o.onto) (← img.enlarged? o.factor)

variable {o} {img : Image} {region : PixelBox}

/-- The boxes of lines do not begin below zero if the factor is at least one. -/
theorem edges?_eq_some {factor : Nat} (hfactor : 1 ≤ factor) (x y : Nat) :
    edges? factor x y = some (edges factor x y) := by
  have hright : subWord? (x * factor + factor) 1 = some (x * factor + factor - 1) :=
    subWord?_eq_some (by omega)
  have hbottom : subWord? (y * factor + factor) 1 = some (y * factor + factor - 1) :=
    subWord?_eq_some (by omega)
  have hx : x * factor + (factor - 1) = x * factor + factor - 1 := by omega
  have hy : y * factor + (factor - 1) = y * factor + factor - 1 := by omega
  simp [edges?, edges, hright, hbottom, subWord?_eq_some hfactor, hx, hy]

/-- The lines around a pixel are found with checks. -/
theorem pixelStrokes?_eq_some (h : IsInside region img) (hfactor : 1 ≤ o.factor) (x y : Nat) :
    o.pixelStrokes? img region x y = some (o.pixelStrokes img region x y) := by
  unfold pixelStrokes? pixelStrokes
  rw [shows?_eq_some h, edges?_eq_some hfactor]
  simp only [Option.bind_eq_bind, Option.bind_some]
  by_cases hshows : o.shows img region x y = true
  · have hsides : ∀ e ∈ edges o.factor x y,
        ((o.shows? img region (x + e.1.right) (y + e.1.down)).bind fun shown =>
          pure (if shown = true then [] else e.2.positions)) =
          some (if o.shows img region (x + e.1.right) (y + e.1.down) then []
            else e.2.positions) := by
      intro e _
      rw [shows?_eq_some h]
      rfl
    rw [if_pos hshows, if_pos hshows, mapM_eq_pure hsides, Option.pure_def, Option.bind_some,
      flatten_map_ite (fun e : Step × PixelBox =>
        o.shows img region (x + e.1.right) (y + e.1.down)) fun e => e.2.positions]
    rfl
  · rw [if_neg hshows, if_neg hshows]
    rfl

/-- All lines are found with checks if the regions lie in the image. -/
theorem strokes?_eq_some {regions : List PixelBox} (h : ∀ region ∈ regions, IsInside region img)
    (hfactor : 1 ≤ o.factor) : o.strokes? img regions = some (o.strokes img regions) := by
  have hregion : ∀ region ∈ regions,
      (do
        let strokes ← region.positions.mapM fun p => o.pixelStrokes? img region p.1 p.2
        return strokes.flatten) =
      some (region.positions.flatMap fun p => o.pixelStrokes img region p.1 p.2) := by
    intro region hmem
    rw [mapM_eq_pure fun p _ => pixelStrokes?_eq_some (h region hmem) hfactor p.1 p.2]
    rfl
  unfold strokes?
  rw [mapM_eq_pure hregion]
  rfl

/-- Lines run over pixels of the enlarged image only. -/
theorem lt_of_mem_strokes {regions : List PixelBox} (h : ∀ region ∈ regions, IsInside region img)
    (hfactor : 1 ≤ o.factor) {p : Nat × Nat} (hp : p ∈ o.strokes img regions) :
    p.1 < img.width * o.factor ∧ p.2 < img.height * o.factor := by
  simp only [strokes, List.mem_flatMap] at hp
  obtain ⟨region, hregion, ⟨x, y⟩, hxy, hp⟩ := hp
  obtain ⟨hx, hy⟩ := h region hregion x y (PixelBox.mem_positions.1 hxy)
  unfold pixelStrokes at hp
  split at hp
  · obtain ⟨e, he, hp⟩ := List.mem_flatMap.1 hp
    have hedge := (List.mem_filter.1 he).1
    have hcontains := PixelBox.mem_positions.1 hp
    rw [PixelBox.contains_iff] at hcontains
    -- All boxes of a line lie in the square that the pixel has become.
    have hsquare : x * o.factor ≤ e.2.x ∧ e.2.x + e.2.width ≤ x * o.factor + o.factor ∧
        y * o.factor ≤ e.2.y ∧ e.2.y + e.2.height ≤ y * o.factor + o.factor := by
      simp only [edges, List.mem_cons, List.not_mem_nil, or_false] at hedge
      rcases hedge with rfl | rfl | rfl | rfl | rfl | rfl | rfl | rfl <;> simp only <;> omega
    have hright : (x + 1) * o.factor ≤ img.width * o.factor := Nat.mul_le_mul_right _ hx
    have hbottom : (y + 1) * o.factor ≤ img.height * o.factor := Nat.mul_le_mul_right _ hy
    rw [Nat.add_mul, Nat.one_mul] at hright hbottom
    omega
  · cases hp

/-- An enlarged image has the size multiplied. -/
theorem hasSize_enlarged (img : Image) {factor : Nat} (hfactor : 1 ≤ factor) :
    (img.enlarged factor).HasSize (img.width * factor) (img.height * factor) := by
  unfold Image.enlarged
  by_cases h : factor ≤ 1
  · obtain rfl : factor = 1 := by omega
    rw [if_pos h, Nat.mul_one, Nat.mul_one]
    exact ⟨rfl, rfl⟩
  · rw [if_neg h]
    exact ⟨rfl, rfl⟩

/-- The lines of regions of an image can always be drawn. -/
theorem draw?_eq_some {regions : List PixelBox} (h : ∀ region ∈ regions, IsInside region img)
    (hfactor : 1 ≤ o.factor) : o.draw? img regions = some (o.draw img regions) := by
  rw [draw?, strokes?_eq_some h hfactor, Image.enlarged?_eq, draw]
  simp only [Option.bind_eq_bind, Option.bind_some]
  refine foldlM_eq_some
    (fun canvas : Image => canvas.HasSize (img.width * o.factor) (img.height * o.factor))
    (fun canvas hcanvas p hp => ?_) (fun canvas p hcanvas => ?_) (hasSize_enlarged img hfactor)
  · obtain ⟨hx, hy⟩ := lt_of_mem_strokes h hfactor hp
    exact Image.modify?_eq_some _ (hcanvas.1 ▸ hx) (hcanvas.2 ▸ hy)
  · exact hcanvas

/-- Lines do not change the size of the enlarged image. -/
theorem hasSize_draw (img : Image) (regions : List PixelBox) (hfactor : 1 ≤ o.factor) :
    (o.draw img regions).HasSize (img.width * o.factor) (img.height * o.factor) := by
  refine (hasSize_enlarged img hfactor).foldl (fun canvas p hcanvas => ?_) _
  exact hcanvas

/-- An image is enlarged at least to its own size. -/
theorem one_le_factor [WholeScalar α] (o : Outline α) : 1 ≤ o.factor := by
  unfold factor
  split
  · next h =>
    have hone : WholeScalar.IsWhole (1 : α) 1 := WholeScalar.isWhole_ofNat (by decide)
    have hmax : WholeScalar.IsWhole (Scalar.ofNat maxFactor : α) maxFactor :=
      WholeScalar.isWhole_ofNat (by decide)
    obtain ⟨k, hlow, hhigh, hk⟩ := WholeScalar.exists_isWhole_clamp
      (WholeScalar.integral_round (1 / o.width)) (WholeScalar.isNaN_round_inv h.1 h.2) hone hmax
      (by decide)
    rw [WholeScalar.clampNat_eq hk hhigh]
    exact hlow
  · exact Nat.le_refl 1

end Outline

/-! ## Packings with checks -/

/-- Packs boxes in words. -/
def packWords? (α : Type) [Scalar α] (limit : Nat) (sizes : List PixelSize) : Option Packing := do
  let width := stripWidth α sizes
  let byArea ← Packing.inWords? limit width (sortedSizes sizes fun s => (s.area, s.height))
  let byWidth ← Packing.inWords? limit width (sortedSizes sizes fun s => (s.width, s.height))
  return if (byArea.efficiency sizes : α) < byWidth.efficiency sizes then byWidth else byArea

/-- In words the same packing is taken, if the greatest word is great enough for the sums. -/
theorem packWords?_eq_some (α : Type) [Scalar α] {limit : Nat} {sizes : List PixelSize}
    (hwidth : stripWidth α sizes ≤ limit) (hheights : (sizes.map PixelSize.height).sum ≤ limit) :
    packWords? α limit sizes = some (pack α sizes) := by
  have hrun : ∀ key, Packing.inWords? limit (stripWidth α sizes) (sortedSizes sizes key) =
      some (packInOrder (stripWidth α sizes) (sortedSizes sizes key)) := by
    intro key
    have hperm := perm_sortedSizes sizes key
    refine Packing.inWords?_eq_some (fun item hitem => width_le_stripWidth α ?_) hwidth ?_
    · exact List.fst_mem_of_mem_zipIdx (hperm.mem_iff.1 hitem)
    · rwa [totalHeight_of_perm hperm]
  rw [packWords?, hrun, hrun]
  rfl

/-! ## Atlases with checks -/

namespace Atlas

variable {α : Type} [Scalar α] {fragments : List (ImageFragment α)}

/-- The atlas of fragments, if all of their rows can be copied and nothing is read or written
outside of an image. -/
def checked? (limit : Nat) (fragments : List (ImageFragment α)) (outline : Option (Outline α)) :
    Option (Atlas α) :=
  if fragments.isEmpty then some empty
  else do
    let p ← packWords? α limit (sizes fragments)
    let a ← plain? fragments p
    match outline with
    | none => return a
    | some o =>
      let image ← o.draw? a.image (regions fragments p)
      return { a.outlined (regions fragments p) o with image }

/-- Where a fragment is shown there are pixels of the atlas. -/
theorem isInside_of_mem_regions {a : Atlas α} (h : plain? fragments (packing fragments) = some a)
    {region : PixelBox} (hregion : region ∈ regions fragments (packing fragments)) :
    Outline.IsInside region a.image := by
  obtain ⟨s, hs, rfl⟩ := List.mem_map.1 hregion
  obtain ⟨i, f, hi, rfl⟩ := mem_slots.1 hs
  intro x y hcontains
  exact lt_of_regionOf_contains h hi hcontains

/-- With checks the atlas is the same. -/
theorem checked?_eq [WholeScalar α] {limit : Nat} (hwidth : (packing fragments).width ≤ limit)
    (hheights : ((sizes fragments).map PixelSize.height).sum ≤ limit)
    (outline : Option (Outline α)) :
    checked? limit fragments outline = ofFragments? fragments outline := by
  rw [packing, width_pack] at hwidth
  have hpack : packWords? α limit (sizes fragments) = some (packing fragments) :=
    packWords?_eq_some α hwidth hheights
  by_cases hempty : fragments = []
  · subst hempty
    rfl
  · rw [ofFragments?_eq hempty, checked?, if_neg (by simpa using hempty), hpack]
    cases hplain : plain? fragments (packing fragments) with
    | none => simp [hplain]
    | some a =>
      cases outline with
      | none => simp [hplain]
      | some o =>
        have hdraw := Outline.draw?_eq_some
          (fun region hregion => isInside_of_mem_regions hplain hregion) o.one_le_factor
        simp [hplain, hdraw, outlined]

/-! ## When there is no atlas -/

/-- The rows of a fragment can be copied unless they have no pixels and there are more of them than
the atlas has, and one more. -/
theorem isCopyable_iff [WholeScalar α] {i : Nat} {f : ImageFragment α} (hi : fragments[i]? = some f)
    (hbounded : f.image.IsBounded) :
    Slot.IsCopyable (max (packing fragments).width 1) (max (packing fragments).height 1)
        (f, Footprint.of f, (packing fragments).corner i) ↔
      ¬((Footprint.of f).box.width = 0 ∧
        max (packing fragments).height 1 + 1 < (Footprint.of f).box.height) := by
  obtain ⟨hbw, hbh⟩ := Footprint.box_inside f hbounded
  -- Rows can always be read.
  have hsource : ∀ row < (Footprint.of f).box.height,
      ((Footprint.of f).box.y + row) * f.image.width + (Footprint.of f).box.x +
        (Footprint.of f).box.width ≤ f.image.pixels.size := by
    intro row hrow
    rw [f.image.size_pixels]
    exact row_le hbw (by omega)
  simp only [Slot.IsCopyable, Footprint.mem_rowCopies, Image.IsCopyable]
  rcases Nat.eq_zero_or_pos (Footprint.of f).box.width with hwidth | hwidth
  · have hempty : (Footprint.of f).pixelSize.isEmpty = true := by
      simp [PixelSize.isEmpty, Footprint.pixelSize, hwidth]
    rw [corner_of_isEmpty hi hempty, hwidth]
    constructor
    · rintro hrows ⟨-, hhigh⟩
      obtain ⟨-, htarget⟩ := hrows _ ⟨max (packing fragments).height 1 + 1, hhigh, rfl⟩
      simp only [Nat.zero_add, Nat.add_zero, Nat.add_mul, Nat.one_mul,
        Nat.mul_comm (max (packing fragments).height 1)] at htarget
      omega
    · rintro hlow c ⟨row, hrow, rfl⟩
      refine ⟨by simpa [hwidth] using hsource row hrow, ?_⟩
      have hle : row * max (packing fragments).width 1 ≤
          max (packing fragments).height 1 * max (packing fragments).width 1 :=
        Nat.mul_le_mul_right _ (by omega)
      simpa [Nat.mul_comm (max (packing fragments).width 1)] using hle
  · refine ⟨fun _ h => by omega, fun _ => ?_⟩
    rintro c ⟨row, hrow, rfl⟩
    refine ⟨hsource row hrow, row_le ?_ ?_⟩
    · exact Nat.le_trans (corner_add_width_le hi) (Nat.le_max_left _ _)
    · have hempty : (Footprint.of f).pixelSize.isEmpty = false := by
        rw [PixelSize.isEmpty_eq_false_iff]
        simp only [Footprint.pixelSize]
        omega
      have hbottom := corner_add_height_le hi hempty
      omega

/-- There is no atlas if and only if the footprint of some fragment is empty across and higher than
the atlas by two pixels or more. -/
theorem eq_none_iff [WholeScalar α] (hbounded : ∀ f ∈ fragments, f.image.IsBounded)
    (outline : Option (Outline α)) :
    ofFragments? fragments outline = none ↔ ∃ f ∈ fragments, (Footprint.of f).box.width = 0 ∧
      max (packing fragments).height 1 + 1 < (Footprint.of f).box.height := by
  by_cases hempty : fragments = []
  · subst hempty
    simp [ofFragments?]
  · rw [ofFragments?_eq hempty, Option.map_eq_none_iff]
    have hplain : plain? fragments (packing fragments) = none ↔
        compose? (max (packing fragments).width 1) (max (packing fragments).height 1)
          (slots fragments (packing fragments)) = none := by
      rw [plain?]
      cases compose? (max (packing fragments).width 1) (max (packing fragments).height 1)
        (slots fragments (packing fragments)) <;> simp
    rw [hplain, compose?_eq, ite_eq_right_iff]
    simp only [reduceCtorEq, imp_false, not_forall]
    constructor
    · rintro ⟨s, hs, hrow⟩
      obtain ⟨i, f, hi, rfl⟩ := mem_slots.1 hs
      have hf := List.mem_of_getElem? hi
      rw [isCopyable_iff hi (hbounded f hf), not_not] at hrow
      exact ⟨f, hf, hrow⟩
    · rintro ⟨f, hf, hrow⟩
      obtain ⟨i, hi⟩ := List.getElem?_of_mem hf
      refine ⟨_, mem_slots.2 ⟨i, f, hi, rfl⟩, ?_⟩
      rw [isCopyable_iff hi (hbounded f hf), not_not]
      exact hrow

/-- In floating point there is no atlas exactly if the footprint of some fragment is empty across
and higher than the atlas by two pixels or more, whatever the rectangles are and with lines or
without. Apart from that row nothing is read or written outside of an image, and no difference is
below zero. -/
theorem ofFragments?_total_iff (fragments : List (ImageFragment Float))
    (outline : Option (Outline Float)) (hbounded : ∀ f ∈ fragments, f.image.IsBounded) :
    (ofFragments? fragments outline = none ↔ ∃ f ∈ fragments, (Footprint.of f).box.width = 0 ∧
      max (packing fragments).height 1 + 1 < (Footprint.of f).box.height) ∧
    ∀ limit, (packing fragments).width ≤ limit →
      ((sizes fragments).map PixelSize.height).sum ≤ limit →
        checked? limit fragments outline = ofFragments? fragments outline :=
  ⟨eq_none_iff hbounded outline, fun _ hwidth hheights => checked?_eq hwidth hheights outline⟩

/-- A rectangle without width, three pixels high, on an image of four by four pixels. -/
theorem ofFragments?_total_iff_of_line :
    let image : Image := .fill 4 4 ⟨255, 0, 0, 255⟩
    let line : ImageFragment Float := ⟨image, ⟨⟨1, 0⟩, ⟨0, 3⟩⟩, none⟩
    image.IsBounded ∧ ofFragments? [line] none = none ∧
      checked? maxUnsigned32 [line] none = none := by
  intro image line
  have hbounded : image.IsBounded := by decide
  have hall : ∀ f ∈ [line], f.image.IsBounded := by simpa using hbounded
  have hbox : (Footprint.of line).box.width = 0 ∧
      max (packing [line]).height 1 + 1 < (Footprint.of line).box.height := by decide +kernel
  have h := ofFragments?_total_iff [line] none hall
  have hnone := h.1.2 ⟨line, List.mem_singleton_self line, hbox⟩
  have hchecked := h.2 maxUnsigned32 (by decide +kernel) (by decide +kernel)
  exact ⟨hbounded, hnone, hchecked.trans hnone⟩

end Atlas

end BlockModels
