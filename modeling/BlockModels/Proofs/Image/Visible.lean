import BlockModels.Proofs.Image.Trimming

/-!
# The visible part of a rectangle

What a rectangle shows of an image are the pixels into which it reaches, and it need not begin or
end with a pixel. A rectangle in it is tight (`Image.IsTight`) if it holds the part of every visible
pixel that lies in the whole one, and each of its sides touches such a part. There is one tight
rectangle at most (`Image.IsTight.isInside_of`), and the part of the whole one in the box around the
visible pixels is tight (`Image.isTight_clipTo`). In exact arithmetic this is what a rectangle is
trimmed to, and a rectangle is not trimmed if there is no visible pixel or if it is tight itself
(`visibleCrop_isTight`).
-/

namespace BlockModels

/-! ## Boxes around positions -/

namespace Image

/-- The extremes are bounds of all values. -/
theorem extremes_bounds {β : Type} (g : β → Nat) (l : List β) (start : Nat × Nat) :
    ((extremes g start l).1 ≤ start.1 ∧ start.2 ≤ (extremes g start l).2) ∧
      ∀ b ∈ l, (extremes g start l).1 ≤ g b ∧ g b ≤ (extremes g start l).2 := by
  induction l generalizing start with
  | nil => exact ⟨⟨le_refl _, le_refl _⟩, List.forall_mem_nil _⟩
  | cons b rest ih =>
    obtain ⟨⟨hfirst, hlast⟩, hrest⟩ := ih (min start.1 (g b), max start.2 (g b))
    refine ⟨⟨hfirst.trans (min_le_left _ _), (le_max_left _ _).trans hlast⟩,
      List.forall_mem_cons.2 ⟨⟨hfirst.trans (min_le_right _ _), (le_max_right _ _).trans hlast⟩,
        hrest⟩⟩

/-- There is no box around no positions only. -/
theorem boxOf_eq_none_iff {l : List (Nat × Nat)} : boxOf l = none ↔ l = [] := by
  cases l with
  | nil => exact iff_of_true rfl rfl
  | cons p rest => exact iff_of_false nofun nofun

/-- A box holds all of the positions, and none of its sides can be moved inwards. -/
structure IsBoxAround (l : List (Nat × Nat)) (b : PixelBox) : Prop where
  contains : ∀ p ∈ l, (b.x ≤ p.1 ∧ p.1 < b.x + b.width) ∧ b.y ≤ p.2 ∧ p.2 < b.y + b.height
  left : ∃ p ∈ l, p.1 = b.x
  top : ∃ p ∈ l, p.2 = b.y
  right : ∃ p ∈ l, b.x + b.width = p.1 + 1
  bottom : ∃ p ∈ l, b.y + b.height = p.2 + 1

/-- The box of some positions is the least around them. -/
theorem isBoxAround_boxOf {l : List (Nat × Nat)} {b : PixelBox} (h : boxOf l = some b) :
    IsBoxAround l b := by
  obtain ⟨⟨hleft, lastX, hlastX, hwidth, hright⟩, htop, lastY, hlastY, hheight, hbottom⟩ :=
    exists_last_of_boxOf h (P := fun n => ∃ p ∈ l, p.1 = n) (Q := fun n => ∃ p ∈ l, p.2 = n)
      fun p hp => ⟨⟨p, hp, rfl⟩, p, hp, rfl⟩
  refine ⟨?_, hleft, htop, ?_, ?_⟩
  · cases l with
    | nil => cases h
    | cons p rest =>
      obtain ⟨x, y⟩ := p
      obtain ⟨hx, hx'⟩ := extremes_bounds Prod.fst rest (x, x)
      obtain ⟨hy, hy'⟩ := extremes_bounds Prod.snd rest (y, y)
      rw [boxOf_cons] at h
      cases h
      refine List.forall_mem_cons.2 ⟨?_, fun q hq => ?_⟩
      · simp only
        omega
      · have hqx := hx' q hq
        have hqy := hy' q hq
        simp only
        omega
  · obtain ⟨p, hp, rfl⟩ := hright
    exact ⟨p, hp, hwidth⟩
  · obtain ⟨p, hp, rfl⟩ := hbottom
    exact ⟨p, hp, hheight⟩

end Image

/-! ## Tight rectangles -/

/-- A pixel can be seen, and a rectangle reaches into it. -/
structure Image.ShowsIn (img : Image) (r : Rect Rat) (x y : Nat) : Prop where
  lt_width : x < img.width
  lt_height : y < img.height
  visible : img.alpha x y ≠ 0
  overlaps : (PixelBox.mk x y 1 1).rect.Overlaps r

/-- The part of a pixel that lies in a rectangle. -/
def Rect.pixelPart (r : Rect Rat) (x y : Nat) : Rect Rat := r.clipTo ⟨x, y, 1, 1⟩

/-- A rectangle holds all that can be seen in another one, and none of its sides can be moved
inwards. -/
structure Image.IsTight (img : Image) (r part : Rect Rat) : Prop where
  pos : 0 < part.size.x ∧ 0 < part.size.y
  isInside : part.IsInside r
  isInside_bounds : part.IsInside img.bounds
  holds : ∀ x y, img.ShowsIn r x y → (r.pixelPart x y).IsInside part
  left : ∃ x y, img.ShowsIn r x y ∧ (r.pixelPart x y).uv.x = part.uv.x
  top : ∃ x y, img.ShowsIn r x y ∧ (r.pixelPart x y).uv.y = part.uv.y
  right : ∃ x y, img.ShowsIn r x y ∧
    (r.pixelPart x y).uv.x + (r.pixelPart x y).size.x = part.uv.x + part.size.x
  bottom : ∃ x y, img.ShowsIn r x y ∧
    (r.pixelPart x y).uv.y + (r.pixelPart x y).size.y = part.uv.y + part.size.y

namespace Rect

variable {r s : Rect Rat}

/-- Rectangles that lie in each other are the same. -/
theorem IsInside.antisymm (h : r.IsInside s) (h' : s.IsInside r) : r = s := by
  obtain ⟨⟨x, y⟩, width, height⟩ := r
  obtain ⟨⟨x', y'⟩, width', height'⟩ := s
  obtain ⟨hleft, htop, hright, hbottom⟩ := h
  obtain ⟨hleft', htop', hright', hbottom'⟩ := h'
  simp only at *
  obtain rfl : x = x' := le_antisymm hleft' hleft
  obtain rfl : y = y' := le_antisymm htop' htop
  obtain rfl : width = width' := by linarith
  obtain rfl : height = height' := by linarith
  rfl

/-- A clipped rectangle begins where the later of the two begins. -/
theorem clipTo_uv (r : Rect Rat) (b : PixelBox) :
    (r.clipTo b).uv = ⟨max b.x r.uv.x, max b.y r.uv.y⟩ := by
  simp only [clipTo, Scalar.max_rat, Scalar.ofNat_rat]

/-- A clipped rectangle ends where the earlier of the two ends. -/
theorem clipTo_stop (r : Rect Rat) (b : PixelBox) :
    (r.clipTo b).uv.x + (r.clipTo b).size.x = min ((b.x + b.width : Nat) : Rat) r.stop.x ∧
      (r.clipTo b).uv.y + (r.clipTo b).size.y = min ((b.y + b.height : Nat) : Rat) r.stop.y := by
  simp only [clipTo, Scalar.min_rat, Scalar.ofNat_rat]
  exact ⟨add_sub_cancel _ _, add_sub_cancel _ _⟩

/-- A smaller box leaves a smaller part. -/
theorem clipTo_isInside_clipTo (r : Rect Rat) {b b' : PixelBox}
    (hx : b'.x ≤ b.x ∧ b.x + b.width ≤ b'.x + b'.width)
    (hy : b'.y ≤ b.y ∧ b.y + b.height ≤ b'.y + b'.height) :
    (r.clipTo b).IsInside (r.clipTo b') := by
  obtain ⟨hstopX, hstopY⟩ := r.clipTo_stop b
  obtain ⟨hstopX', hstopY'⟩ := r.clipTo_stop b'
  refine ⟨?_, ?_, ?_, ?_⟩
  · rw [clipTo_uv, clipTo_uv]
    exact max_le_max (Nat.cast_le.2 hx.1) (le_refl _)
  · rw [clipTo_uv, clipTo_uv]
    exact max_le_max (Nat.cast_le.2 hy.1) (le_refl _)
  · rw [hstopX, hstopX']
    exact min_le_min (Nat.cast_le.2 hx.2) (le_refl _)
  · rw [hstopY, hstopY']
    exact min_le_min (Nat.cast_le.2 hy.2) (le_refl _)

/-- A rectangle overlaps a pixel if it reaches over it both ways. -/
theorem overlaps_pixel_iff {x y : Nat} : (PixelBox.mk x y 1 1).rect.Overlaps r ↔
    (r.uv.x < x + 1 ∧ (x : Rat) < r.stop.x) ∧ r.uv.y < y + 1 ∧ (y : Rat) < r.stop.y := by
  have hone : ((1 : Nat) : Rat) = 1 := Nat.cast_one
  simp only [Overlaps, PixelBox.rect, hone]
  exact and_congr and_comm and_comm

end Rect

namespace Image

variable {img : Image} {r part : Rect Rat}

/-- The visible positions among those that are touched. -/
theorem mem_shown_iff {p : Nat × Nat} :
    p ∈ (img.touchedBox r).positions.filter (fun p => img.alpha p.1 p.2 != 0) ↔
      img.ShowsIn r p.1 p.2 := by
  rw [List.mem_filter, mem_touchedBox_iff, bne_iff_ne]
  constructor
  · rintro ⟨⟨⟨hx, hacross⟩, hy, hdown⟩, hvisible⟩
    exact ⟨hx, hy, hvisible, Rect.overlaps_pixel_iff.2 ⟨hacross, hdown⟩⟩
  · rintro ⟨hx, hy, hvisible, hoverlaps⟩
    obtain ⟨hacross, hdown⟩ := Rect.overlaps_pixel_iff.1 hoverlaps
    exact ⟨⟨⟨hx, hacross⟩, hy, hdown⟩, hvisible⟩

/-- The part of a rectangle in the box around what can be seen in it is tight. -/
theorem isTight_clipTo (hx : 0 < r.size.x) (hy : 0 < r.size.y) {box : PixelBox}
    (h : img.visibleBox (img.touchedBox r) = some box) : img.IsTight r (r.clipTo box) := by
  obtain ⟨hcontains, ⟨left, hleft, hleft'⟩, ⟨top, htop, htop'⟩, ⟨right, hright, hright'⟩, bottom,
    hbottom, hbottom'⟩ := isBoxAround_boxOf h
  have huv := r.clipTo_uv box
  obtain ⟨hstopX, hstopY⟩ := r.clipTo_stop box
  have hwidth : (max box.x r.uv.x : Rat) < min ((box.x + box.width : Nat) : Rat) r.stop.x :=
    begun_lt_ended hx hright' (hleft' ▸ (mem_touchedBox_iff.1 (List.mem_filter.1 hleft).1).1.2.2)
      (mem_touchedBox_iff.1 (List.mem_filter.1 hright).1).1.2.1 (hcontains right hright).1.1
  have hheight : (max box.y r.uv.y : Rat) < min ((box.y + box.height : Nat) : Rat) r.stop.y :=
    begun_lt_ended hy hbottom' (htop' ▸ (mem_touchedBox_iff.1 (List.mem_filter.1 htop).1).2.2.2)
      (mem_touchedBox_iff.1 (List.mem_filter.1 hbottom).1).2.2.1 (hcontains bottom hbottom).2.1
  rw [← hstopX] at hwidth
  rw [← hstopY] at hheight
  have hinside := img.touchedBox_inside r
  exact {
    pos := by
      rw [huv] at hwidth hheight
      exact ⟨by linarith, by linarith⟩
    isInside := {
      left := huv ▸ le_max_right _ _
      top := huv ▸ le_max_right _ _
      right := hstopX.trans_le (min_le_right _ _)
      bottom := hstopY.trans_le (min_le_right _ _) }
    isInside_bounds := r.isInside_clipTo (visibleBox_inside hinside.1 hinside.2 h)
    holds := by
      intro x y hshown
      have hbox := hcontains (x, y) (mem_shown_iff.2 hshown)
      exact r.clipTo_isInside_clipTo hbox.1 hbox.2
    left := ⟨_, _, mem_shown_iff.1 hleft, by rw [Rect.pixelPart, Rect.clipTo_uv, huv, hleft']⟩
    top := ⟨_, _, mem_shown_iff.1 htop, by rw [Rect.pixelPart, Rect.clipTo_uv, huv, htop']⟩
    right := ⟨_, _, mem_shown_iff.1 hright, by
      rw [Rect.pixelPart, (r.clipTo_stop _).1, hstopX, hright']⟩
    bottom := ⟨_, _, mem_shown_iff.1 hbottom, by
      rw [Rect.pixelPart, (r.clipTo_stop _).2, hstopY, hbottom']⟩ }

/-- There is one tight rectangle only: each holds the pixels at the sides of the other one. -/
theorem IsTight.isInside_of {other : Rect Rat} (h : img.IsTight r part)
    (h' : img.IsTight r other) : part.IsInside other := by
  obtain ⟨_, _, hshown, hleft⟩ := h.left
  obtain ⟨_, _, hshown₁, htop⟩ := h.top
  obtain ⟨_, _, hshown₂, hright⟩ := h.right
  obtain ⟨_, _, hshown₃, hbottom⟩ := h.bottom
  exact {
    left := hleft ▸ (h'.holds _ _ hshown).left
    top := htop ▸ (h'.holds _ _ hshown₁).top
    right := hright ▸ (h'.holds _ _ hshown₂).right
    bottom := hbottom ▸ (h'.holds _ _ hshown₃).bottom }

end Image

/-! ## Crops -/

namespace Crop

variable {r part : Rect Rat}

/-- The crop that one rectangle is of another takes it. -/
theorem of_between (hx : r.size.x ≠ 0) (hy : r.size.y ≠ 0) (part : Rect Rat) :
    (between r part).of r = part := by
  obtain ⟨⟨x, y⟩, width, height⟩ := part
  change Rect.mk ⟨r.uv.x + (x - r.uv.x) / r.size.x * r.size.x,
    r.uv.y + (y - r.uv.y) / r.size.y * r.size.y⟩
    ⟨width / r.size.x * r.size.x, height / r.size.y * r.size.y⟩ = _
  simp only [div_mul_cancel₀ _ hx, div_mul_cancel₀ _ hy, add_sub_cancel]

/-- A rectangle is all of itself. -/
theorem between_self (hx : r.size.x ≠ 0) (hy : r.size.y ≠ 0) : between r r = whole := by
  change Crop.mk ((r.uv.x - r.uv.x) / r.size.x) ((r.uv.y - r.uv.y) / r.size.y)
    (r.size.x / r.size.x) (r.size.y / r.size.y) = _
  rw [sub_self, sub_self, zero_div, zero_div, div_self hx, div_self hy]
  rfl

/-- All of a rectangle is the rectangle. -/
theorem whole_of (r : Rect Rat) : whole.of r = r := by
  simp only [of, whole, zero_mul, add_zero, one_mul]

/-- Crops are compared exactly. -/
theorem beq_eq_true_iff {c d : Crop Rat} : (c == d) = true ↔ c = d := by
  obtain ⟨x, y, w, h⟩ := c
  obtain ⟨x', y', w', h'⟩ := d
  change (x == x' && y == y' && w == w' && h == h') = true ↔ _
  simp only [Bool.and_eq_true, beq_iff_eq, Crop.mk.injEq, and_assoc]

/-- A part is taken for the whole only if it is the whole. -/
theorem between_beq_whole_iff (hx : r.size.x ≠ 0) (hy : r.size.y ≠ 0) :
    (between r part == whole) = true ↔ part = r := by
  rw [beq_eq_true_iff]
  constructor
  · intro h
    rw [← of_between hx hy part, h, whole_of]
  · rintro rfl
    exact between_self hx hy

end Crop

/-- Nothing is trimmed of a rectangle if nothing can be seen in it, or if what can be seen reaches
to all of its sides. -/
theorem visibleCrop_eq_none_iff {img : Image} {r : Rect Rat} (hx : 0 < r.size.x)
    (hy : 0 < r.size.y) : visibleCrop img r = none ↔
      ∀ box, img.visibleBox (img.touchedBox r) = some box → r.clipTo box = r := by
  have hguard : (!r.isFinite || decide (r.size.x ≤ 0) || decide (r.size.y ≤ 0)) = false := by
    have hfinite : r.isFinite = true := rfl
    simp [hfinite, hx, hy]
  unfold visibleCrop
  rw [hguard, if_neg Bool.false_ne_true]
  cases img.visibleBox (img.touchedBox r) with
  | none => exact iff_of_true rfl nofun
  | some box =>
    simp only [Option.some.injEq, forall_eq']
    rw [← Crop.between_beq_whole_iff hx.ne' hy.ne']
    split
    next h => exact iff_of_true rfl h
    next h => exact iff_of_false nofun h

/-- What is left of a rectangle is the tight rectangle in it, and the crop is the part that this is
of it. Nothing is trimmed if nothing can be seen in the rectangle or if it is tight itself. -/
theorem visibleCrop_isTight (img : Image) {r : Rect Rat} (hx : 0 < r.size.x) (hy : 0 < r.size.y) :
    (∀ part crop, visibleCrop img r = some (part, crop) →
      img.IsTight r part ∧ crop.IsPart ∧ crop.of r = part) ∧
      (visibleCrop img r = none ↔ (∀ x y, ¬ img.ShowsIn r x y) ∨ img.IsTight r r) := by
  refine ⟨fun part crop h => ?_, ?_⟩
  · obtain ⟨-, -, box, hbox, rfl, rfl⟩ := visibleCrop_eq_some h
    exact ⟨Image.isTight_clipTo hx hy hbox, Crop.isPart_of_visibleCrop h,
      Crop.of_between hx.ne' hy.ne' _⟩
  rw [visibleCrop_eq_none_iff hx hy]
  cases hbox : img.visibleBox (img.touchedBox r) with
  | none =>
    refine iff_of_true nofun (.inl fun x y hshown => ?_)
    have hmem := Image.mem_shown_iff (p := (x, y)).2 hshown
    rw [Image.boxOf_eq_none_iff.1 hbox] at hmem
    cases hmem
  | some box =>
    have htight := Image.isTight_clipTo hx hy hbox
    obtain ⟨x, y, hshown, -⟩ := htight.left
    simp only [Option.some.injEq, forall_eq']
    constructor
    · intro h
      rw [h] at htight
      exact .inr htight
    · rintro (hnone | hwhole)
      · exact absurd hshown (hnone x y)
      · exact (htight.isInside_of hwhole).antisymm (hwhole.isInside_of htight)

/-- A rectangle that begins in the middle of the only pixel that can be seen. -/
theorem visibleCrop_isTight_of_pixel :
    let dot : Pixel := ⟨0, 0, 0, 255⟩
    let img := Image.ofFn 4 4 fun x y => if x = 1 ∧ y = 2 then dot else .transparent
    let r : Rect Rat := ⟨⟨3 / 2, 1 / 2⟩, ⟨2, 3⟩⟩
    let part : Rect Rat := ⟨⟨3 / 2, 2⟩, ⟨1 / 2, 1⟩⟩
    let crop : Crop Rat := ⟨0, 1 / 2, 1 / 4, 1 / 3⟩
    0 < r.size.x ∧ 0 < r.size.y ∧ visibleCrop img r = some (part, crop) ∧
      (img.IsTight r part ∧ crop.IsPart ∧ crop.of r = part) ∧
      (visibleCrop img r = none ↔ (∀ x y, ¬ img.ShowsIn r x y) ∨ img.IsTight r r) := by
  intro dot img r part crop
  have hx : 0 < r.size.x := by decide +kernel
  have hy : 0 < r.size.y := by decide +kernel
  have hcrop : visibleCrop img r = some (part, crop) := by decide +kernel
  obtain ⟨hsome, hnone⟩ := visibleCrop_isTight img hx hy
  exact ⟨hx, hy, hcrop, hsome part crop hcrop, hnone⟩

end BlockModels
