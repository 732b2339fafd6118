import BlockModels.Proofs.Atlas.Placing

/-!
# What a texture shows of its image

A texture asks for a rectangle in parts of its image's width and height, so the rectangle lies in
the image if it lies in the unit square. It is replaced in two cases, and then it always lies in the
image: an image that is not there is replaced by all of the placeholder, and a rectangle that was
trimmed is what is left of it around pixels that can be seen
(`TextureFragment.isInImage_apply_iff`).
-/

namespace BlockModels

/-! ## The box around what can be seen -/

namespace Image

/-- The least and the greatest of the values of a list, and of two more. -/
def extremes {β : Type} (g : β → Nat) (start : Nat × Nat) (l : List β) : Nat × Nat :=
  l.foldl (fun s b => (min s.1 (g b), max s.2 (g b))) start

/-- If all values are below a limit, so are the extremes, and they are in order. -/
theorem extremes_lt {β : Type} {g : β → Nat} {limit : Nat} {l : List β} (hl : ∀ b ∈ l, g b < limit)
    {start : Nat × Nat} (hle : start.1 ≤ start.2) (hlt : start.2 < limit) :
    (extremes g start l).1 ≤ (extremes g start l).2 ∧ (extremes g start l).2 < limit := by
  induction l generalizing start with
  | nil => exact ⟨hle, hlt⟩
  | cons b rest ih =>
    have hb := hl b List.mem_cons_self
    refine ih (fun c hc => hl c (List.mem_cons_of_mem _ hc)) ?_ ?_
    · simp only
      omega
    · simp only
      omega

theorem boxOf_cons (x y : Nat) (rest : List (Nat × Nat)) :
    boxOf ((x, y) :: rest) =
      some ⟨(extremes Prod.fst (x, x) rest).1, (extremes Prod.snd (y, y) rest).1,
        (extremes Prod.fst (x, x) rest).2 - (extremes Prod.fst (x, x) rest).1 + 1,
        (extremes Prod.snd (y, y) rest).2 - (extremes Prod.snd (y, y) rest).1 + 1⟩ :=
  rfl

/-- The box around positions of an image lies in the image. -/
theorem boxOf_inside {width height : Nat} {l : List (Nat × Nat)} {b : PixelBox}
    (h : boxOf l = some b) (hl : ∀ p ∈ l, p.1 < width ∧ p.2 < height) :
    b.x + b.width ≤ width ∧ b.y + b.height ≤ height := by
  cases l with
  | nil => cases h
  | cons p rest =>
    obtain ⟨x, y⟩ := p
    obtain ⟨hx, hy⟩ := hl _ List.mem_cons_self
    have hrest : ∀ p ∈ rest, p.1 < width ∧ p.2 < height := fun p hp =>
      hl p (List.mem_cons_of_mem _ hp)
    obtain ⟨hxle, hxlt⟩ : (extremes Prod.fst (x, x) rest).1 ≤ (extremes Prod.fst (x, x) rest).2 ∧
        (extremes Prod.fst (x, x) rest).2 < width :=
      extremes_lt (fun p hp => (hrest p hp).1) (Nat.le_refl x) hx
    obtain ⟨hyle, hylt⟩ : (extremes Prod.snd (y, y) rest).1 ≤ (extremes Prod.snd (y, y) rest).2 ∧
        (extremes Prod.snd (y, y) rest).2 < height :=
      extremes_lt (fun p hp => (hrest p hp).2) (Nat.le_refl y) hy
    rw [boxOf_cons] at h
    cases h
    simp only
    omega

/-- The box of the pixels that a rectangle touches lies in the image. -/
theorem touchedBox_inside (img : Image) (r : Rect Rat) :
    (img.touchedBox r).x + (img.touchedBox r).width ≤ img.width ∧
      (img.touchedBox r).y + (img.touchedBox r).height ≤ img.height := by
  have hclamp : ∀ (limit : Nat) (a : Rat), Scalar.clampNat limit a ≤ limit := fun limit a =>
    Nat.min_le_left _ _
  unfold touchedBox
  simp only
  constructor
  · have hfirst := hclamp img.width (Scalar.max (Scalar.floor r.uv.x) 0)
    have hbehind := hclamp img.width (Scalar.max (Scalar.ceil r.stop.x) 0)
    omega
  · have hfirst := hclamp img.height (Scalar.max (Scalar.floor r.uv.y) 0)
    have hbehind := hclamp img.height (Scalar.max (Scalar.ceil r.stop.y) 0)
    omega

/-- The box around the visible pixels of a box of the image lies in the image. -/
theorem visibleBox_inside {img : Image} {b box : PixelBox} (hb : b.x + b.width ≤ img.width)
    (hb' : b.y + b.height ≤ img.height) (h : img.visibleBox b = some box) :
    box.x + box.width ≤ img.width ∧ box.y + box.height ≤ img.height := by
  refine boxOf_inside h fun p hp => ?_
  have hcontains := PixelBox.mem_positions.1 (List.mem_filter.1 hp).1
  rw [PixelBox.contains_iff] at hcontains
  omega

end Image

/-! ## Trimmed rectangles -/

/-- The part of a rectangle in a box of the image lies in the image. -/
theorem Rect.isInside_clipTo {img : Image} (r : Rect Rat) {b : PixelBox}
    (hb : b.x + b.width ≤ img.width ∧ b.y + b.height ≤ img.height) :
    (r.clipTo b).IsInside img.bounds := by
  have hright : ((b.x + b.width : Nat) : Rat) ≤ img.width := Nat.cast_le.2 hb.1
  have hbottom : ((b.y + b.height : Nat) : Rat) ≤ img.height := Nat.cast_le.2 hb.2
  -- On each axis: begun at the later beginning, to be ended at the earlier end.
  have hbegin : ∀ (n : Nat) (u : Rat), 0 ≤ Scalar.max (Scalar.ofNat n) u := fun n u =>
    Scalar.max_rat _ u ▸ (Nat.cast_nonneg n).trans (le_max_left _ _)
  have hend : ∀ (n : Nat) (u start limit : Rat), (n : Rat) ≤ limit →
      start + (Scalar.min (Scalar.ofNat n) u - start) ≤ limit := by
    intro n u start limit hn
    rw [add_sub_cancel, Scalar.min_rat]
    exact (min_le_left _ _).trans hn
  exact isInside_bounds_iff.2
    ⟨⟨hbegin _ _, hbegin _ _⟩, hend _ _ _ _ hright, hend _ _ _ _ hbottom⟩

/-- What is left of a rectangle lies in the image. -/
theorem isInside_visibleCrop {img : Image} {r part : Rect Rat} {crop : Crop Rat}
    (h : visibleCrop img r = some (part, crop)) : part.IsInside img.bounds := by
  unfold visibleCrop at h
  split at h
  · cases h
  · split at h
    · cases h
    · next box hbox =>
      simp only at h
      split at h
      · cases h
      · cases h
        obtain ⟨hx, hy⟩ := img.touchedBox_inside r
        exact r.isInside_clipTo (Image.visibleBox_inside hx hy hbox)

/-! ## Fragments -/

/-- All of a texture, in parts of its width and height. -/
def Rect.unit : Rect Rat := ⟨.fill 0, .fill 1⟩

/-- A rectangle in parts of an image lies in the image if it lies in the unit square. -/
theorem Rect.isInside_unit_iff {img : Image} (hwidth : 0 < img.width) (hheight : 0 < img.height)
    (r : Rect Rat) :
    (Rect.mk (r.uv.zipWith (· * ·) img.extent) (r.size.zipWith (· * ·) img.extent)).IsInside
        img.bounds ↔
      r.IsInside .unit := by
  -- On each axis: a beginning and an end, multiplied by the length of the axis.
  have hbegin : ∀ (n : Nat) (u : Rat), 0 < n → (0 ≤ u * n ↔ 0 ≤ u) := fun n u hn =>
    mul_nonneg_iff_of_pos_right (Nat.cast_pos.2 hn)
  have hend : ∀ (n : Nat) (u v : Rat), 0 < n → (u * n + v * n ≤ n ↔ u + v ≤ 0 + 1) := by
    intro n u v hn
    have hpos : (0 : Rat) < n := Nat.cast_pos.2 hn
    rw [← add_mul, zero_add, mul_le_iff_le_one_left hpos]
  rw [isInside_bounds_iff]
  constructor
  · rintro ⟨⟨hleft, htop⟩, hright, hbottom⟩
    exact {
      left := (hbegin _ _ hwidth).1 hleft
      top := (hbegin _ _ hheight).1 htop
      right := (hend _ _ _ hwidth).1 hright
      bottom := (hend _ _ _ hheight).1 hbottom }
  · intro h
    exact ⟨⟨(hbegin _ _ hwidth).2 h.left, (hbegin _ _ hheight).2 h.top⟩,
      (hend _ _ _ hwidth).2 h.right, (hend _ _ _ hheight).2 h.bottom⟩

/-- A texture shows its rectangle of the image that was loaded, or what is left of it. -/
theorem TextureFragment.apply_some_cases (t : TextureFragment Rat) (loaded : LoadedImage) :
    ∃ img : Image,
      t.apply (some loaded) = ⟨img, ⟨t.rect.uv.zipWith (· * ·) img.extent,
        t.rect.size.zipWith (· * ·) img.extent⟩, none⟩ ∨
      ∃ r part crop, visibleCrop img r = some (part, crop) ∧
        t.apply (some loaded) = ⟨img, part, some crop⟩ := by
  refine ⟨(loaded.image.tinted loaded.format t.tint).faded t.opacity, ?_⟩
  unfold apply
  simp only
  split
  · next part crop hcrop =>
    split at hcrop
    · exact Or.inr ⟨_, part, crop, hcrop, rfl⟩
    · cases hcrop
  · exact Or.inl rfl

/-- What a texture shows lies in the image if the image is not there, if the rectangle was trimmed,
and if the rectangle lies in the unit square; else it does not. -/
theorem TextureFragment.isInImage_apply_iff (t : TextureFragment Rat) (loaded : Option LoadedImage)
    (hwidth : 0 < (t.apply loaded).image.width) (hheight : 0 < (t.apply loaded).image.height) :
    (t.apply loaded).IsInImage ↔
      loaded = none ∨ (t.apply loaded).crop.isSome = true ∨ t.rect.IsInside .unit := by
  cases loaded with
  | none =>
    refine iff_of_true ?_ (Or.inl rfl)
    exact ⟨le_refl _, le_refl _, le_refl _, le_refl _⟩
  | some loaded =>
    obtain ⟨img, happly | ⟨r, part, crop, hcrop, happly⟩⟩ := t.apply_some_cases loaded
    · rw [happly] at hwidth hheight ⊢
      simpa [ImageFragment.IsInImage] using Rect.isInside_unit_iff hwidth hheight t.rect
    · rw [happly]
      exact iff_of_true (isInside_visibleCrop hcrop) (Or.inr (Or.inl rfl))

end BlockModels
