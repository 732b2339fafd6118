import BlockModels.Proofs.Image.Cropping

/-!
# What is left of a trimmed rectangle

A rectangle is trimmed to a box that has visible pixels on its sides, and the rectangle reaches into
every pixel that it touches. So something is left of it on both axes, and in exact arithmetic the
crop names a part of it by fractions between zero and one (`Crop.isPart_of_visibleCrop`).
-/

namespace BlockModels

/-! ## Boxes around positions -/

namespace Image

/-- What holds of the values of a list, and of two more, holds of the extremes. -/
theorem extremes_of_forall {β : Type} {g : β → Nat} {P : Nat → Prop} {l : List β}
    (hl : ∀ b ∈ l, P (g b)) {start : Nat × Nat} (hfirst : P start.1) (hlast : P start.2) :
    P (extremes g start l).1 ∧ P (extremes g start l).2 := by
  induction l generalizing start with
  | nil => exact ⟨hfirst, hlast⟩
  | cons b rest ih =>
    have hb := hl b List.mem_cons_self
    refine ih (fun c hc => hl c (List.mem_cons_of_mem _ hc)) ?_ ?_
    · simp only
      rcases min_choice start.1 (g b) with h | h <;> rw [h] <;> assumption
    · simp only
      rcases max_choice start.2 (g b) with h | h <;> rw [h] <;> assumption

theorem extremes_le {β : Type} (g : β → Nat) (l : List β) {start : Nat × Nat}
    (h : start.1 ≤ start.2) : (extremes g start l).1 ≤ (extremes g start l).2 := by
  induction l generalizing start with
  | nil => exact h
  | cons b rest ih => exact ih (le_trans (min_le_left _ _) (h.trans (le_max_left _ _)))

/-- What holds of all positions holds of the first and the last pixel of the box around them, on
each axis. -/
theorem exists_last_of_boxOf {l : List (Nat × Nat)} {b : PixelBox} (h : boxOf l = some b)
    {P Q : Nat → Prop} (hl : ∀ p ∈ l, P p.1 ∧ Q p.2) :
    (P b.x ∧ ∃ last, b.x ≤ last ∧ b.x + b.width = last + 1 ∧ P last) ∧
      Q b.y ∧ ∃ last, b.y ≤ last ∧ b.y + b.height = last + 1 ∧ Q last := by
  cases l with
  | nil => cases h
  | cons p rest =>
    obtain ⟨x, y⟩ := p
    obtain ⟨hx, hy⟩ := hl _ List.mem_cons_self
    have hrest : ∀ p ∈ rest, P p.1 ∧ Q p.2 := fun p hp => hl p (List.mem_cons_of_mem _ hp)
    rw [boxOf_cons] at h
    cases h
    have hxle : (extremes Prod.fst (x, x) rest).1 ≤ (extremes Prod.fst (x, x) rest).2 :=
      extremes_le _ _ (le_refl x)
    have hyle : (extremes Prod.snd (y, y) rest).1 ≤ (extremes Prod.snd (y, y) rest).2 :=
      extremes_le _ _ (le_refl y)
    obtain ⟨hleft, hright⟩ : P (extremes Prod.fst (x, x) rest).1 ∧
        P (extremes Prod.fst (x, x) rest).2 :=
      extremes_of_forall (fun p hp => (hrest p hp).1) hx hx
    obtain ⟨htop, hbottom⟩ : Q (extremes Prod.snd (y, y) rest).1 ∧
        Q (extremes Prod.snd (y, y) rest).2 :=
      extremes_of_forall (fun p hp => (hrest p hp).2) hy hy
    refine ⟨⟨hleft, _, hxle, ?_, hright⟩, htop, _, hyle, ?_, hbottom⟩
    · simp only
      omega
    · simp only
      omega

/-! ## Pixels that a rectangle touches -/

/-- An interval touches the pixels of an image that it begins before the end of, and that begin
before its own end. -/
theorem touched_iff {limit n : Nat} {start stop : Rat} :
    (Scalar.clampNat limit (Scalar.max (Scalar.floor start) 0) ≤ n ∧
        n < Scalar.clampNat limit (Scalar.max (Scalar.ceil stop) 0)) ↔
      n < limit ∧ start < n + 1 ∧ (n : Rat) < stop := by
  have hclamp : ∀ z : Int, Scalar.clampNat limit (Scalar.max (z : Rat) 0) =
      min limit (max z 0).toNat := by
    intro z
    have hcast : (max (z : Rat) 0) = ((max z 0 : Int) : Rat) := by rw [Int.cast_max, Int.cast_zero]
    rw [Scalar.max_rat, Scalar.clampNat_rat]
    change Nat.min limit ⌊max (z : Rat) 0⌋.toNat = _
    rw [hcast, Int.floor_intCast]
  have hfloor : start < n + 1 ↔ ⌊start⌋ < (n : Int) + 1 := by
    rw [Int.floor_lt]
    push_cast
    rfl
  have hceil : (n : Rat) < stop ↔ (n : Int) < ⌈stop⌉ := by
    rw [Int.lt_ceil, Int.cast_natCast]
  rw [Scalar.floor_rat, Scalar.ceil_rat, hclamp, hclamp, hfloor, hceil]
  omega

variable {img : Image} {r : Rect Rat}

theorem mem_touchedBox_iff {p : Nat × Nat} : p ∈ (img.touchedBox r).positions ↔
    (p.1 < img.width ∧ r.uv.x < p.1 + 1 ∧ (p.1 : Rat) < r.stop.x) ∧
      p.2 < img.height ∧ r.uv.y < p.2 + 1 ∧ (p.2 : Rat) < r.stop.y := by
  rw [← touched_iff, ← touched_iff, ← Prod.mk.eta (p := p), PixelBox.mem_positions,
    PixelBox.contains_iff]
  unfold touchedBox
  simp only
  omega

end Image

/-! ## Fractions -/

/-- The crop takes a part of a rectangle, which is not empty. -/
structure Crop.IsPart (c : Crop Rat) : Prop where
  left : 0 ≤ c.x
  top : 0 ≤ c.y
  width_pos : 0 < c.w
  height_pos : 0 < c.h
  right : c.x + c.w ≤ 1
  bottom : c.y + c.h ≤ 1

/-- Of an interval something is left between a pixel that it reaches into and another one. -/
theorem begun_lt_ended {start size : Rat} {first last width : Nat} (hsize : 0 < size)
    (hwidth : first + width = last + 1) (hfirst : (first : Rat) < start + size)
    (hlast : start < last + 1) (hle : first ≤ last) :
    (max first start : Rat) < min ((first + width : Nat) : Rat) (start + size) := by
  have hend : ((first + width : Nat) : Rat) = last + 1 := by exact_mod_cast congrArg Nat.cast hwidth
  have hle' : (first : Rat) ≤ last := Nat.cast_le.2 hle
  rw [lt_min_iff, max_lt_iff, max_lt_iff, hend]
  exact ⟨⟨by linarith, hlast⟩, hfirst, by linarith⟩

/-- The part of the interval that is left, in fractions of its length. -/
theorem fraction_of_reaches {start size : Rat} {first last width : Nat} (hsize : 0 < size)
    (hwidth : first + width = last + 1) (hfirst : (first : Rat) < start + size)
    (hlast : start < last + 1) (hle : first ≤ last) :
    let begun : Rat := max first start
    let ended : Rat := min ((first + width : Nat) : Rat) (start + size)
    0 ≤ (begun - start) / size ∧ 0 < (ended - begun) / size ∧
      (begun - start) / size + (ended - begun) / size ≤ 1 := by
  intro begun ended
  have hbegun : start ≤ begun := le_max_right _ _
  have hended : ended ≤ start + size := min_le_right _ _
  have hlt : begun < ended := begun_lt_ended hsize hwidth hfirst hlast hle
  refine ⟨div_nonneg (by linarith) hsize.le, div_pos (by linarith) hsize, ?_⟩
  rw [← add_div, div_le_one hsize]
  linarith

/-- What is left of a rectangle, and what crop that is. -/
theorem visibleCrop_eq_some {img : Image} {r part : Rect Rat} {crop : Crop Rat}
    (h : visibleCrop img r = some (part, crop)) :
    0 < r.size.x ∧ 0 < r.size.y ∧ ∃ box, img.visibleBox (img.touchedBox r) = some box ∧
      part = r.clipTo box ∧ crop = Crop.between r part := by
  unfold visibleCrop at h
  split at h
  · cases h
  next hpos =>
    split at h
    · cases h
    next box hbox =>
      simp only at h
      split at h
      · cases h
      · cases h
        simp only [Bool.or_eq_true, decide_eq_true_eq, not_or, not_le] at hpos
        exact ⟨hpos.1.2, hpos.2, box, hbox, rfl, rfl⟩

/-- The crop of a trimmed rectangle takes a part of it. -/
theorem Crop.isPart_of_visibleCrop {img : Image} {r part : Rect Rat} {crop : Crop Rat}
    (h : visibleCrop img r = some (part, crop)) : crop.IsPart := by
  obtain ⟨hx, hy, box, hbox, rfl, rfl⟩ := visibleCrop_eq_some h
  obtain ⟨⟨hleft, last, hle, hwidth, hright⟩, htop, last', hle', hheight, hbottom⟩ :=
    Image.exists_last_of_boxOf hbox
      (P := fun n => r.uv.x < n + 1 ∧ (n : Rat) < r.stop.x)
      (Q := fun n => r.uv.y < n + 1 ∧ (n : Rat) < r.stop.y)
      fun p hp => by
        obtain ⟨hx, hy⟩ := Image.mem_touchedBox_iff.1 (List.mem_filter.1 hp).1
        exact ⟨hx.2, hy.2⟩
  obtain ⟨hx₀, hw, hx₁⟩ := fraction_of_reaches hx hwidth hleft.2 hright.1 hle
  obtain ⟨hy₀, hh, hy₁⟩ := fraction_of_reaches hy hheight htop.2 hbottom.1 hle'
  simp only [Crop.between, Rect.clipTo, Scalar.max_rat, Scalar.min_rat, Scalar.ofNat_rat]
  exact ⟨hx₀, hy₀, hw, hh, hx₁, hy₁⟩

end BlockModels
