import BlockModels.Proofs.Image.Visible

/-!
# The pixels that a fragment needs

A fragment needs those pixels of its image that have an area in common with its rectangle. These are
the pixels of its footprint, no more and no fewer (`Footprint.IsExact`), wherever the rectangle
begins and ends. What is left of a rectangle that was trimmed lies in the image, so it begins in the
first pixel of its footprint and ends in the last one (`Footprint.Holds`).
-/

namespace BlockModels

/-! ## Areas -/

namespace Rect

/-- The area that two rectangles have in common. -/
def commonArea (r s : Rect Rat) : Rat :=
  max 0 (min r.stop.x s.stop.x - max r.uv.x s.uv.x) *
    max 0 (min r.stop.y s.stop.y - max r.uv.y s.uv.y)

theorem mul_max_zero_pos_iff (a b : Rat) : 0 < max 0 a * max 0 b ↔ 0 < a ∧ 0 < b := by
  constructor
  · intro h
    have hpos : 0 < max 0 a := pos_of_mul_pos_left h (le_max_left _ _)
    have hpos' : 0 < max 0 b := pos_of_mul_pos_right h (le_max_left _ _)
    simpa using And.intro hpos hpos'
  · rintro ⟨ha, hb⟩
    exact mul_pos (lt_max_of_lt_right ha) (lt_max_of_lt_right hb)

/-- What two intervals have in common has a length if each begins before the other one ends. -/
theorem common_pos_iff {a b c d : Rat} (hab : a < b) (hcd : c < d) :
    0 < min b d - max a c ↔ a < d ∧ c < b := by
  rw [sub_pos, max_lt_iff, lt_min_iff, lt_min_iff]
  exact ⟨fun h => ⟨h.1.2, h.2.1⟩, fun h => ⟨⟨hab, h.1⟩, h.2, hcd⟩⟩

/-- Rectangles that are not empty have an area in common if they overlap. -/
theorem commonArea_pos_iff {r s : Rect Rat} (hr : 0 < r.size.x ∧ 0 < r.size.y)
    (hs : 0 < s.size.x ∧ 0 < s.size.y) : 0 < r.commonArea s ↔ r.Overlaps s := by
  have hpos : ∀ a b : Rat, 0 < b → a < a + b := fun a b hb => lt_add_of_pos_right a hb
  have hacross := common_pos_iff (hpos r.uv.x _ hr.1) (hpos s.uv.x _ hs.1)
  have hdown := common_pos_iff (hpos r.uv.y _ hr.2) (hpos s.uv.y _ hs.2)
  exact (mul_max_zero_pos_iff _ _).trans (and_congr hacross hdown)

end Rect

/-! ## One axis -/

namespace Footprint

/-- A pixel of the axis is one of a span if the interval begins before the end of the pixel, and
ends behind its beginning. -/
theorem mem_pixels_iff (start size : Rat) {length n : Nat} (hn : n < length) :
    ((pixels start size length).1 ≤ n ∧
        n < (pixels start size length).1 + (pixels start size length).2) ↔
      start < n + 1 ∧ (n : Rat) < start + size := by
  have hwhole : WholeScalar.IsWhole (Scalar.ofNat length : Rat) length := rfl
  obtain ⟨m, k, hmk, hk, hfirst, hbehind, heq⟩ := exists_pixels_eq start size hwhole
  -- The span as it is defined, and as natural numbers.
  have hfirst' : (span start size (Scalar.ofNat length)).1 = (m : Rat) := hfirst
  have hbehind' : (span start size (Scalar.ofNat length)).2 = (k : Rat) := hbehind
  have hn' : (n : Rat) < length := Nat.cast_lt.2 hn
  have hbegin : m ≤ n ↔ start < n + 1 := by
    have hfloor : (⌊start⌋ : Rat) ≤ n ↔ start < n + 1 := by
      rw [← Int.cast_natCast, Int.cast_le, Int.floor_le_iff, Int.cast_natCast]
    rw [← Nat.cast_le (α := Rat), ← hfirst', span_fst, min_le_iff, max_le_iff, hfloor]
    exact ⟨fun h => (h.resolve_right (not_le.2 hn')).1, fun h => .inl ⟨h, Nat.cast_nonneg n⟩⟩
  have hend : m ≤ n → (n < k ↔ (n : Rat) < start + size) := by
    intro hmn
    have hceil : (n : Rat) < (⌈start + size⌉ : Rat) ↔ (n : Rat) < start + size := by
      rw [← Int.cast_natCast, Int.cast_lt, Int.lt_ceil]
    have hmn' : (m : Rat) ≤ n := Nat.cast_le.2 hmn
    rw [← Nat.cast_lt (α := Rat), ← hbehind', span_snd, hfirst', lt_min_iff, lt_max_iff, hceil]
    exact ⟨fun h => h.1.resolve_right (not_lt.2 hmn'), fun h => ⟨.inl h, hn'⟩⟩
  rw [heq, ← hbegin]
  simp only [Nat.add_sub_cancel' hmk]
  exact and_congr_right hend

/-- An interval that begins on the axis begins in the first pixel of its span. -/
theorem remainder_mem {start : Rat} (size : Rat) {length : Nat} (hstart : 0 ≤ start)
    (hlength : start ≤ length) :
    0 ≤ start - (span start size (Scalar.ofNat length)).1 ∧
      start - (span start size (Scalar.ofNat length)).1 < 1 := by
  have hfloor : (0 : Rat) ≤ ⌊start⌋ := Int.cast_nonneg (Int.floor_nonneg.2 hstart)
  rw [span_fst, max_eq_left hfloor, min_eq_left ((Int.floor_le start).trans hlength),
    Int.self_sub_floor]
  exact ⟨Int.fract_nonneg _, Int.fract_lt_one _⟩

/-- An interval that ends on the axis ends in its span. -/
theorem remainder_add_le {start size : Rat} {length : Nat} (h : start + size ≤ length) :
    start - (span start size (Scalar.ofNat length)).1 + size ≤
      ((pixels start size length).2 : Rat) := by
  have hplaced := (placed_le_iff start size length 0).2 h
  rwa [Nat.cast_zero, zero_add, zero_add] at hplaced

/-! ## Footprints -/

/-- The box of a footprint lies in the image, and has exactly those of its pixels that have an area
in common with the rectangle. -/
structure IsExact (f : ImageFragment Rat) : Prop where
  inside : (of f).box.x + (of f).box.width ≤ f.image.width ∧
    (of f).box.y + (of f).box.height ≤ f.image.height
  contains_iff : ∀ x y, x < f.image.width → y < f.image.height →
    ((of f).box.contains x y = true ↔ 0 < (PixelBox.mk x y 1 1).rect.commonArea f.rect)

/-- The rectangle of a footprint begins in the first pixel of the box, and ends in the box. -/
structure Holds (p : Footprint Rat) : Prop where
  left : 0 ≤ p.remainder.x ∧ p.remainder.x < 1
  top : 0 ≤ p.remainder.y ∧ p.remainder.y < 1
  right : p.remainder.x + p.size.x ≤ p.box.width
  bottom : p.remainder.y + p.size.y ≤ p.box.height

/-- The box of a footprint lies in the image, and which of its pixels it has can be told on each
axis alone. -/
theorem isExact_of_pos {f : ImageFragment Rat} (hx : 0 < f.rect.size.x) (hy : 0 < f.rect.size.y) :
    IsExact f := by
  have hof := of_eq (Rect.isFinite_rat f.rect)
  refine ⟨?_, fun x y hwidth hheight => ?_⟩
  · rw [hof]
    exact ⟨pixels_le _ _ rfl, pixels_le _ _ rfl⟩
  · have hacross := mem_pixels_iff f.rect.uv.x f.rect.size.x hwidth
    have hdown := mem_pixels_iff f.rect.uv.y f.rect.size.y hheight
    have hone : (0 : Rat) < (1 : Nat) := Nat.cast_pos.2 Nat.one_pos
    rw [Rect.commonArea_pos_iff ⟨hone, hone⟩ ⟨hx, hy⟩, Rect.overlaps_pixel_iff,
      PixelBox.contains_iff, hof]
    simp only
    rw [← and_assoc, hacross, hdown]
    rfl

/-- A rectangle in the image is held by its footprint. -/
theorem holds_of_isInImage {f : ImageFragment Rat} (hx : 0 ≤ f.rect.size.x)
    (hy : 0 ≤ f.rect.size.y) (h : f.IsInImage) : (of f).Holds := by
  obtain ⟨⟨hleft, htop⟩, hright, hbottom⟩ := Rect.isInside_bounds_iff.1 h
  rw [of_eq (Rect.isFinite_rat f.rect)]
  exact {
    left := remainder_mem _ hleft (by linarith)
    top := remainder_mem _ htop (by linarith)
    right := remainder_add_le hright
    bottom := remainder_add_le hbottom }

end Footprint

/-- What is left of a rectangle that was trimmed is held by its footprint. -/
theorem holds_of_visibleCrop {img : Image} {r part : Rect Rat} {crop : Crop Rat}
    (h : visibleCrop img r = some (part, crop)) : (Footprint.of ⟨img, part, some crop⟩).Holds := by
  obtain ⟨hx, hy, box, hbox, rfl, -⟩ := visibleCrop_eq_some h
  have hpos := (Image.isTight_clipTo hx hy hbox).pos
  exact Footprint.holds_of_isInImage hpos.1.le hpos.2.le (isInside_visibleCrop h)

/-- A fragment needs exactly the pixels of its image that its rectangle covers at least in part,
wherever the rectangle lies; and what is left of a rectangle that was trimmed begins in the first
pixel that it needs and ends in the last one. -/
theorem footprint_isExact :
    (∀ f : ImageFragment Rat, 0 < f.rect.size.x → 0 < f.rect.size.y → Footprint.IsExact f) ∧
      ∀ (img : Image) (r part : Rect Rat) (crop : Crop Rat), visibleCrop img r = some (part, crop) →
        (Footprint.of ⟨img, part, some crop⟩).Holds :=
  ⟨fun _ hx hy => Footprint.isExact_of_pos hx hy, fun _ _ _ _ h => holds_of_visibleCrop h⟩

/-- A rectangle that begins before its image, and another one that is trimmed to the only pixel that
can be seen. -/
theorem footprint_isExact_of_corner :
    let dot : Pixel := ⟨0, 0, 0, 255⟩
    let img := Image.ofFn 4 3 fun x y => if x = 1 ∧ y = 2 then dot else .transparent
    let f : ImageFragment Rat := ⟨img, ⟨⟨-1 / 2, 3 / 2⟩, ⟨2, 5⟩⟩, none⟩
    let part : Rect Rat := ⟨⟨3 / 2, 2⟩, ⟨1 / 2, 1⟩⟩
    let crop : Crop Rat := ⟨0, 1 / 2, 1 / 4, 1 / 3⟩
    0 < f.rect.size.x ∧ 0 < f.rect.size.y ∧ (Footprint.of f).box = ⟨0, 1, 2, 2⟩ ∧
      Footprint.IsExact f ∧ visibleCrop img ⟨⟨3 / 2, 1 / 2⟩, ⟨2, 3⟩⟩ = some (part, crop) ∧
        (Footprint.of ⟨img, part, some crop⟩).Holds := by
  intro dot img f part crop
  have hx : 0 < f.rect.size.x := by decide +kernel
  have hy : 0 < f.rect.size.y := by decide +kernel
  have hbox : (Footprint.of f).box = ⟨0, 1, 2, 2⟩ := by decide +kernel
  have hcrop : visibleCrop img ⟨⟨3 / 2, 1 / 2⟩, ⟨2, 3⟩⟩ = some (part, crop) := by decide +kernel
  exact ⟨hx, hy, hbox, footprint_isExact.1 f hx hy, hcrop, footprint_isExact.2 _ _ _ _ hcrop⟩

end BlockModels
