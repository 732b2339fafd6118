import BlockModels.Proofs.Atlas.Checked

/-!
# Where placements lie

Of a fragment only pixels of its image are copied, but its placement keeps all of its rectangle: how
far it begins behind the first pixel, which may be before it, and the whole size. So in exact
arithmetic a placement lies in the region of its fragment if and only if the rectangle of the
fragment lies in its image. Placements that lie in their regions do not overlap, since the regions
do not, and they lie in the atlas, since the regions do; the one exception is a region without
width, which may reach below the atlas (`Atlas.Places`).

An atlas that was enlarged is measured in the pixels it was made of, multiplied by a factor, and so
are its placements and regions (`Rect.scaled`).
-/

namespace BlockModels

/-! ## Rectangles -/

namespace Rect

/-- A rectangle lies in another one. -/
structure IsInside (r whole : Rect Rat) : Prop where
  left : whole.uv.x ≤ r.uv.x
  top : whole.uv.y ≤ r.uv.y
  right : r.uv.x + r.size.x ≤ whole.uv.x + whole.size.x
  bottom : r.uv.y + r.size.y ≤ whole.uv.y + whole.size.y

instance (r whole : Rect Rat) : Decidable (r.IsInside whole) :=
  decidable_of_iff
    ((whole.uv.x ≤ r.uv.x ∧ whole.uv.y ≤ r.uv.y) ∧
      r.uv.x + r.size.x ≤ whole.uv.x + whole.size.x ∧
      r.uv.y + r.size.y ≤ whole.uv.y + whole.size.y)
    ⟨fun h => ⟨h.1.1, h.1.2, h.2.1, h.2.2⟩, fun h => ⟨⟨h.left, h.top⟩, h.right, h.bottom⟩⟩

/-- Neither of two rectangles ends, on any axis, at or before the beginning of the other one. -/
def Overlaps (r s : Rect Rat) : Prop :=
  (r.uv.x < s.uv.x + s.size.x ∧ s.uv.x < r.uv.x + r.size.x) ∧
    r.uv.y < s.uv.y + s.size.y ∧ s.uv.y < r.uv.y + r.size.y

instance (r s : Rect Rat) : Decidable (r.Overlaps s) := inferInstanceAs (Decidable (_ ∧ _))

/-- Every number of a rectangle multiplied by a factor. -/
def scaled (r : Rect Rat) (k : Nat) : Rect Rat := ⟨r.uv.map (· * k), r.size.map (· * k)⟩

variable {r s : Rect Rat} {k : Nat}

/-- What lies in a rectangle within another lies in that. -/
theorem IsInside.trans {t : Rect Rat} (h : r.IsInside s) (h' : s.IsInside t) : r.IsInside t where
  left := h'.left.trans h.left
  top := h'.top.trans h.top
  right := h.right.trans h'.right
  bottom := h.bottom.trans h'.bottom

/-- Multiplying by one changes nothing. -/
theorem scaled_one (r : Rect Rat) : r.scaled 1 = r := by
  simp [scaled, Vec2.map]

/-- Both sides of a comparison of ends, multiplied. -/
theorem end_le_iff (hk : 0 < k) (a b c d : Rat) :
    a * k + b * k ≤ c * k + d * k ↔ a + b ≤ c + d := by
  have hpos : (0 : Rat) < k := Nat.cast_pos.2 hk
  rw [← add_mul, ← add_mul, mul_le_mul_iff_of_pos_right hpos]

/-- Multiplying both keeps whether one rectangle lies in the other. -/
theorem isInside_scaled (hk : 0 < k) : (r.scaled k).IsInside (s.scaled k) ↔ r.IsInside s := by
  have hpos : (0 : Rat) < k := Nat.cast_pos.2 hk
  constructor
  · intro h
    exact ⟨(mul_le_mul_iff_of_pos_right hpos).1 h.left, (mul_le_mul_iff_of_pos_right hpos).1 h.top,
      (end_le_iff hk _ _ _ _).1 h.right, (end_le_iff hk _ _ _ _).1 h.bottom⟩
  · intro h
    exact ⟨(mul_le_mul_iff_of_pos_right hpos).2 h.left, (mul_le_mul_iff_of_pos_right hpos).2 h.top,
      (end_le_iff hk _ _ _ _).2 h.right, (end_le_iff hk _ _ _ _).2 h.bottom⟩

/-- A beginning before an end, both multiplied. -/
theorem lt_end_iff (hk : 0 < k) (a c d : Rat) : a * k < c * k + d * k ↔ a < c + d := by
  have hpos : (0 : Rat) < k := Nat.cast_pos.2 hk
  rw [← add_mul, mul_lt_mul_iff_of_pos_right hpos]

/-- Multiplying both keeps whether rectangles overlap. -/
theorem overlaps_scaled (hk : 0 < k) : (r.scaled k).Overlaps (s.scaled k) ↔ r.Overlaps s := by
  simp only [Overlaps, scaled, Vec2.map, lt_end_iff hk]

end Rect

/-- A box of pixels as a rectangle. -/
def PixelBox.rect (b : PixelBox) : Rect Rat := ⟨⟨b.x, b.y⟩, ⟨b.width, b.height⟩⟩

/-- A box of pixels lies in another if its four sides do. -/
theorem PixelBox.rect_isInside {b c : PixelBox} (hx : c.x ≤ b.x) (hy : c.y ≤ b.y)
    (hright : b.x + b.width ≤ c.x + c.width) (hbottom : b.y + b.height ≤ c.y + c.height) :
    b.rect.IsInside c.rect := by
  have hright' : (b.x + b.width : Rat) ≤ c.x + c.width := by exact_mod_cast hright
  have hbottom' : (b.y + b.height : Rat) ≤ c.y + c.height := by exact_mod_cast hbottom
  exact ⟨Nat.cast_le.2 hx, Nat.cast_le.2 hy, hright', hbottom'⟩

/-- The box on an image that was enlarged. -/
def PixelBox.enlarged (b : PixelBox) (k : Nat) : PixelBox :=
  ⟨b.x * k, b.y * k, b.width * k, b.height * k⟩

/-- An enlarged box is a multiplied rectangle. -/
theorem PixelBox.rect_enlarged (b : PixelBox) (k : Nat) :
    (b.enlarged k).rect = b.rect.scaled k := by
  simp [enlarged, rect, Rect.scaled, Vec2.map]

/-- An enlarged placement is a multiplied rectangle. -/
theorem Placement.rect_enlarged (p : Placement Rat) (k : Nat) :
    (p.enlarged k).rect = p.rect.scaled k := rfl

/-- All of an image. -/
def Image.bounds (img : Image) : Rect Rat := ⟨.fill 0, img.extent⟩

/-- A rectangle lies in an image if it begins and ends within it. -/
theorem Rect.isInside_bounds_iff {r : Rect Rat} {img : Image} :
    r.IsInside img.bounds ↔ (0 ≤ r.uv.x ∧ 0 ≤ r.uv.y) ∧
      r.uv.x + r.size.x ≤ img.width ∧ r.uv.y + r.size.y ≤ img.height := by
  have hwidth : (0 : Rat) + img.width = img.width := zero_add _
  have hheight : (0 : Rat) + img.height = img.height := zero_add _
  constructor
  · intro h
    exact ⟨⟨h.left, h.top⟩, h.right.trans_eq hwidth, h.bottom.trans_eq hheight⟩
  · rintro ⟨⟨hleft, htop⟩, hright, hbottom⟩
    exact ⟨hleft, htop, hright.trans_eq hwidth.symm, hbottom.trans_eq hheight.symm⟩

/-- The bounds of an enlarged image are those of the image, multiplied. -/
theorem Image.HasSize.bounds_eq {img : Image} {width height k : Nat}
    (h : img.HasSize (width * k) (height * k)) :
    img.bounds = (PixelBox.mk 0 0 width height).rect.scaled k := by
  simp [bounds, extent, h.1, h.2, PixelBox.rect, Rect.scaled, Vec2.map, Vec2.fill]

/-- The rectangle of a fragment lies in its image. -/
def ImageFragment.IsInImage (f : ImageFragment Rat) : Prop := f.rect.IsInside f.image.bounds

instance (f : ImageFragment Rat) : Decidable f.IsInImage :=
  inferInstanceAs (Decidable (f.rect.IsInside f.image.bounds))

/-! ## One axis -/

namespace Footprint

/-- A span begins at or before a rectangle unless that begins before the image. -/
theorem span_fst_le_iff (start size : Rat) (length : Nat) :
    (span start size (Scalar.ofNat length)).1 ≤ start ↔ 0 ≤ start := by
  have hlength : (0 : Rat) ≤ length := Nat.cast_nonneg length
  rw [span_fst]
  constructor
  · intro h
    exact (le_min (le_max_right _ _) hlength).trans h
  · intro h
    exact (min_le_left _ _).trans (max_le (Int.floor_le start) h)

/-- A span ends at or behind a rectangle unless that ends behind the image. -/
theorem le_span_snd_iff (start size : Rat) (length : Nat) :
    start + size ≤ (span start size (Scalar.ofNat length)).2 ↔ start + size ≤ length := by
  rw [span_snd]
  constructor
  · intro h
    exact h.trans (min_le_right _ _)
  · intro h
    exact le_min ((Int.le_ceil _).trans (le_max_left _ _)) h

/-- What a span is in pixels, as a number. -/
theorem cast_pixels (start size : Rat) (length : Nat) :
    ((pixels start size length).2 : Rat) =
      (span start size (Scalar.ofNat length)).2 - (span start size (Scalar.ofNat length)).1 := by
  have hwhole : WholeScalar.IsWhole (Scalar.ofNat length : Rat) length := rfl
  obtain ⟨m, n, hmn, hn, hfirst, hbehind, heq⟩ := exists_pixels_eq start size hwhole
  rw [heq]
  exact (WholeScalar.isWhole_sub hbehind hfirst hmn).symm

/-- A rectangle that ends within the height of the atlas, counted from the pixel in which it begins,
needs no more pixels than that. -/
theorem pixels_le_of_end_le {start size : Rat} {length height : Nat}
    (h : start - (span start size (Scalar.ofNat length)).1 + size ≤ height) :
    (pixels start size length).2 ≤ height := by
  have hwhole : WholeScalar.IsWhole (Scalar.ofNat length : Rat) length := rfl
  obtain ⟨m, n, hmn, hn, hfirst, hbehind⟩ := exists_isWhole_span start size hwhole
  have hfirst' : (span start size (Scalar.ofNat length)).1 = (m : Rat) := hfirst
  have hceil : ⌈start + size⌉ ≤ ((m + height : Nat) : Int) := by
    rw [Int.ceil_le]
    push_cast
    rw [hfirst'] at h
    linarith
  have hceil' : (⌈start + size⌉ : Rat) ≤ m + height := by exact_mod_cast hceil
  have hle : (span start size (Scalar.ofNat length)).2 ≤ m + height := by
    rw [span_snd, hfirst']
    exact (min_le_left _ _).trans (max_le hceil' (by simp))
  have hcast : ((pixels start size length).2 : Rat) ≤ height := by
    rw [cast_pixels, hfirst']
    linarith
  exact_mod_cast hcast

/-- On one axis: what is placed begins in its region unless it begins before the image. -/
theorem le_placed_iff (start size : Rat) (length corner : Nat) :
    (corner : Rat) ≤ corner + (start - (span start size (Scalar.ofNat length)).1) ↔ 0 ≤ start := by
  rw [le_add_iff_nonneg_right, sub_nonneg, span_fst_le_iff]

/-- It ends in its region unless it ends behind the image. -/
theorem placed_le_iff (start size : Rat) (length corner : Nat) :
    corner + (start - (span start size (Scalar.ofNat length)).1) + size ≤
        corner + ((pixels start size length).2 : Rat) ↔
      start + size ≤ length := by
  rw [cast_pixels, ← le_span_snd_iff, add_assoc, add_le_add_iff_left, sub_add_eq_add_sub,
    sub_le_sub_iff_right]

/-- A fragment is placed in its region if and only if its rectangle lies in its image. -/
theorem isInside_region_iff (f : ImageFragment Rat) (corner : Nat × Nat) :
    ((of f).placedAt corner f.crop).rect.IsInside ((of f).region corner).rect ↔
      f.IsInImage := by
  rw [of_eq (Rect.isFinite_rat f.rect), ImageFragment.IsInImage, Rect.isInside_bounds_iff]
  constructor
  · intro h
    exact ⟨⟨(le_placed_iff _ _ _ _).1 h.left, (le_placed_iff _ _ _ _).1 h.top⟩,
      (placed_le_iff _ _ _ _).1 h.right, (placed_le_iff _ _ _ _).1 h.bottom⟩
  · rintro ⟨⟨hleft, htop⟩, hright, hbottom⟩
    exact {
      left := (le_placed_iff _ _ _ _).2 hleft
      top := (le_placed_iff _ _ _ _).2 htop
      right := (placed_le_iff _ _ _ _).2 hright
      bottom := (placed_le_iff _ _ _ _).2 hbottom }

end Footprint

/-! ## Atlases -/

/-- Neither of two boxes ends, on any axis, at or before the beginning of the other one. -/
def PixelBox.Meets (b c : PixelBox) : Prop :=
  (b.x < c.x + c.width ∧ c.x < b.x + b.width) ∧ b.y < c.y + c.height ∧ c.y < b.y + b.height

/-- Boxes that hold overlapping rectangles meet. -/
theorem PixelBox.meets_of_overlaps {b c : PixelBox} {r s : Rect Rat} (hr : r.IsInside b.rect)
    (hs : s.IsInside c.rect) (h : r.Overlaps s) : b.Meets c := by
  obtain ⟨⟨hrx, hsx⟩, hry, hsy⟩ := h
  have hx : (b.x : Rat) < c.x + c.width := (hr.left.trans_lt hrx).trans_le hs.right
  have hx' : (c.x : Rat) < b.x + b.width := (hs.left.trans_lt hsx).trans_le hr.right
  have hy : (b.y : Rat) < c.y + c.height := (hr.top.trans_lt hry).trans_le hs.bottom
  have hy' : (c.y : Rat) < b.y + b.height := (hs.top.trans_lt hsy).trans_le hr.bottom
  exact ⟨⟨by exact_mod_cast hx, by exact_mod_cast hx'⟩, by exact_mod_cast hy, by exact_mod_cast hy'⟩

/-- Boxes that meet and have an extent share the position at which the later of them begins. -/
theorem PixelBox.exists_contains {b c : PixelBox} (h : b.Meets c)
    (hb : 0 < b.width ∧ 0 < b.height) (hc : 0 < c.width ∧ 0 < c.height) :
    ∃ x y, b.contains x y = true ∧ c.contains x y = true := by
  obtain ⟨⟨hx, hx'⟩, hy, hy'⟩ := h
  refine ⟨max b.x c.x, max b.y c.y, contains_iff.2 ?_, contains_iff.2 ?_⟩
  · omega
  · omega

namespace Atlas

section

variable {α : Type} [Scalar α] {fragments : List (ImageFragment α)}

/-- A box without extent has no width or no height. -/
theorem not_pos_of_isEmpty {f : ImageFragment α}
    (hempty : (Footprint.of f).pixelSize.isEmpty = true) :
    ¬(0 < (Footprint.of f).box.width ∧ 0 < (Footprint.of f).box.height) := by
  intro hpos
  exact Bool.noConfusion (hempty.symm.trans (PixelSize.isEmpty_eq_false_iff.2 hpos))

/-- A region that begins before the end of some box has an extent: one without lies in the first
corner. -/
theorem isEmpty_eq_false_of_meets {i : Nat} {f : ImageFragment α} (hi : fragments[i]? = some f)
    {b : PixelBox} (h : (regionOf fragments i f).Meets b) :
    (Footprint.of f).pixelSize.isEmpty = false := by
  cases hempty : (Footprint.of f).pixelSize.isEmpty with
  | false => rfl
  | true =>
    have hcorner := corner_of_isEmpty hi hempty
    have hextent := not_pos_of_isEmpty hempty
    simp only [PixelBox.Meets, regionOf, Footprint.region, hcorner] at h
    omega

/-- The regions of two fragments do not meet. -/
theorem eq_of_meets {i j : Nat} {f g : ImageFragment α} (hi : fragments[i]? = some f)
    (hj : fragments[j]? = some g) (h : (regionOf fragments i f).Meets (regionOf fragments j g)) :
    i = j := by
  have hsymm : (regionOf fragments j g).Meets (regionOf fragments i f) := by
    obtain ⟨⟨hx, hx'⟩, hy, hy'⟩ := h
    exact ⟨⟨hx', hx⟩, hy', hy⟩
  have hf := isEmpty_eq_false_of_meets hi h
  have hg := isEmpty_eq_false_of_meets hj hsymm
  rw [PixelSize.isEmpty_eq_false_iff] at hf hg
  obtain ⟨x, y, hx, hy⟩ := PixelBox.exists_contains h hf hg
  exact eq_of_regionOf_contains hi hj hx hy

/-- A region reaches below the atlas only if it has no width: one with an extent was placed, and one
without height does not reach below anything. -/
theorem corner_add_height_le_max {i : Nat} {f : ImageFragment α} (hi : fragments[i]? = some f)
    (h : ¬((Footprint.of f).box.width = 0 ∧
      max (packing fragments).height 1 < (Footprint.of f).box.height)) :
    ((packing fragments).corner i).2 + (Footprint.of f).box.height ≤
      max (packing fragments).height 1 := by
  cases hempty : (Footprint.of f).pixelSize.isEmpty with
  | false => exact Nat.le_trans (corner_add_height_le hi hempty) (Nat.le_max_left _ _)
  | true =>
    have hextent := not_pos_of_isEmpty hempty
    rw [corner_of_isEmpty hi hempty]
    omega

/-- The region of a fragment on the atlas as it was enlarged. -/
def slot (a : Atlas α) (fragments : List (ImageFragment α)) (i : Nat) (f : ImageFragment α) :
    PixelBox :=
  (regionOf fragments i f).enlarged a.factor

end

/-- A placement lies in the region of its fragment exactly if the rectangle of the fragment lies in
its image. Where this is so, the placement lies in the atlas, unless the region has no width and
reaches below the atlas, and it does not overlap other such placements. -/
structure Places (a : Atlas Rat) (fragments : List (ImageFragment Rat)) : Prop where
  length_eq : a.placements.length = fragments.length
  inside_iff : ∀ {i : Nat} {f : ImageFragment Rat} {place : Placement Rat},
    fragments[i]? = some f → a.placements[i]? = some place →
      (place.rect.IsInside (a.slot fragments i f).rect ↔ f.IsInImage)
  within_iff : ∀ {i : Nat} {f : ImageFragment Rat} {place : Placement Rat},
    fragments[i]? = some f → a.placements[i]? = some place → f.IsInImage →
      (place.rect.IsInside a.image.bounds ↔
        ¬((a.slot fragments i f).width = 0 ∧ a.image.height < (a.slot fragments i f).height))
  apart : ∀ {i j : Nat} {f g : ImageFragment Rat} {p q : Placement Rat},
    fragments[i]? = some f → fragments[j]? = some g → a.placements[i]? = some p →
      a.placements[j]? = some q → i ≠ j → f.IsInImage → g.IsInImage → ¬p.rect.Overlaps q.rect

variable {fragments : List (ImageFragment Rat)} {a : Atlas Rat}

/-- What is on an atlas is what was composed, enlarged. -/
structure IsEnlarged (a : Atlas Rat) (fragments : List (ImageFragment Rat)) : Prop where
  pos : 0 < a.factor
  hasSize : a.image.HasSize (max (packing fragments).width 1 * a.factor)
    (max (packing fragments).height 1 * a.factor)
  length_eq : a.placements.length = fragments.length
  rect_eq : ∀ {i : Nat} {f : ImageFragment Rat} {place : Placement Rat},
    fragments[i]? = some f → a.placements[i]? = some place →
      place.rect =
        ((Footprint.of f).placedAt ((packing fragments).corner i) f.crop).rect.scaled a.factor

/-- The atlas of some fragments is what was composed of them, enlarged by the factor of its
outline. -/
theorem isEnlarged_of_ofFragments? {outline : Option (Outline Rat)} (hne : fragments ≠ [])
    (h : ofFragments? fragments outline = some a) : a.IsEnlarged fragments := by
  rw [ofFragments?_eq hne, Option.map_eq_some_iff] at h
  obtain ⟨b, hb, ha⟩ := h
  have hsize := hasSize_plain? hb
  have hlength : b.placements.length = fragments.length := by
    simp [(plain?_eq_some hb).2.1, slots]
  cases outline with
  | none =>
    subst ha
    have hfactor := (plain?_eq_some hb).2.2
    refine ⟨hfactor ▸ Nat.one_pos, ?_, hlength, fun {i f place} hi hplace => ?_⟩
    · rw [hfactor, Nat.mul_one, Nat.mul_one]
      exact hsize
    · rw [getElem?_placements hb hi] at hplace
      cases hplace
      rw [hfactor, Rect.scaled_one]
  | some o =>
    subst ha
    have hdraw := Outline.hasSize_draw b.image (regions fragments (packing fragments))
      o.one_le_factor
    refine ⟨o.one_le_factor, ?_, ?_, fun {i f place} hi hplace => ?_⟩
    · rw [hsize.1, hsize.2] at hdraw
      exact hdraw
    · exact (List.length_map _).trans hlength
    · have hmap : (b.placements.map fun p => p.enlarged o.factor)[i]? = some place := hplace
      rw [List.getElem?_map, getElem?_placements hb hi] at hmap
      cases hmap
      exact Placement.rect_enlarged _ _

/-- A placement lies in its slot exactly if its rectangle lies in the image. -/
theorem IsEnlarged.inside_iff (h : a.IsEnlarged fragments) {i : Nat} {f : ImageFragment Rat}
    {place : Placement Rat} (hi : fragments[i]? = some f) (hplace : a.placements[i]? = some place) :
    place.rect.IsInside (a.slot fragments i f).rect ↔ f.IsInImage := by
  rw [h.rect_eq hi hplace, slot, PixelBox.rect_enlarged, Rect.isInside_scaled h.pos]
  exact Footprint.isInside_region_iff f _

/-- A placement that lies in its region lies in the atlas if the region does. -/
theorem IsEnlarged.within_iff (h : a.IsEnlarged fragments) {i : Nat} {f : ImageFragment Rat}
    {place : Placement Rat} (hi : fragments[i]? = some f) (hplace : a.placements[i]? = some place)
    (hf : f.IsInImage) :
    place.rect.IsInside a.image.bounds ↔
      ¬((a.slot fragments i f).width = 0 ∧ a.image.height < (a.slot fragments i f).height) := by
  have hregion := (Footprint.isInside_region_iff f ((packing fragments).corner i)).2 hf
  have hwidth : (a.slot fragments i f).width = 0 ↔ (Footprint.of f).box.width = 0 :=
    mul_eq_zero_iff_right h.pos.ne'
  have hheight : a.image.height < (a.slot fragments i f).height ↔
      max (packing fragments).height 1 < (Footprint.of f).box.height := by
    rw [h.hasSize.2]
    exact Nat.mul_lt_mul_right h.pos
  rw [h.rect_eq hi hplace, h.hasSize.bounds_eq, Rect.isInside_scaled h.pos, hwidth, hheight]
  constructor
  · rintro hin ⟨hzero, hlow⟩
    have hempty : (Footprint.of f).pixelSize.isEmpty = true := by
      simp [PixelSize.isEmpty, Footprint.pixelSize, hzero]
    have hbottom := hin.bottom
    rw [corner_of_isEmpty hi hempty, Footprint.of_eq (Rect.isFinite_rat f.rect)] at hbottom
    simp only [Footprint.placedAt, PixelBox.rect, Scalar.ofNat_rat, Nat.cast_zero,
      zero_add] at hbottom
    have hle := Footprint.pixels_le_of_end_le hbottom
    rw [Footprint.of_eq (Rect.isFinite_rat f.rect)] at hlow
    exact absurd hle (Nat.not_le.2 hlow)
  · intro hreach
    have hright := Nat.le_trans (corner_add_width_le hi) (Nat.le_max_left _ 1)
    have hbottom := corner_add_height_le_max hi hreach
    refine hregion.trans (PixelBox.rect_isInside (Nat.zero_le _) (Nat.zero_le _) ?_ ?_)
    · exact hright.trans (Nat.zero_add _).ge
    · exact hbottom.trans (Nat.zero_add _).ge

/-- Over the rationals every atlas places its fragments so, with lines or without. -/
theorem places_of_ofFragments? {outline : Option (Outline Rat)}
    (h : ofFragments? fragments outline = some a) : a.Places fragments := by
  cases fragments with
  | nil =>
    cases h
    exact {
      length_eq := rfl
      inside_iff := fun hi => by simp at hi
      within_iff := fun hi => by simp at hi
      apart := fun hi => by simp at hi }
  | cons f rest =>
    have hplain := isEnlarged_of_ofFragments? (List.cons_ne_nil f rest) h
    refine ⟨hplain.length_eq, hplain.inside_iff, hplain.within_iff, ?_⟩
    intro i j f g p q hi hj hp hq hij hf hg hoverlap
    have hpin := (hplain.inside_iff hi hp).2 hf
    have hqin := (hplain.inside_iff hj hq).2 hg
    rw [hplain.rect_eq hi hp, slot, PixelBox.rect_enlarged, Rect.isInside_scaled hplain.pos] at hpin
    rw [hplain.rect_eq hj hq, slot, PixelBox.rect_enlarged, Rect.isInside_scaled hplain.pos] at hqin
    rw [hplain.rect_eq hi hp, hplain.rect_eq hj hq, Rect.overlaps_scaled hplain.pos] at hoverlap
    exact hij (eq_of_meets hi hj (PixelBox.meets_of_overlaps hpin hqin hoverlap))

end Atlas

end BlockModels
