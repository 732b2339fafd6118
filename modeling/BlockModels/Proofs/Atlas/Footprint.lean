import BlockModels.Atlas.Basic
import BlockModels.Proofs.Scalar.Whole

/-!
# Footprints lie in their images

Whatever the rectangle of a fragment is, the box of pixels that it touches lies in the image
(`Footprint.box_inside`): its first pixel and the first one behind it are brought between zero and
the length of the image, and the second one is not before the first one. That the numbers of 32 bits
are exact is all that is needed of the scalars.
-/

namespace BlockModels

/-- The sides of the image are numbers of 32 bits. -/
def Image.IsBounded (img : Image) : Prop :=
  img.width ≤ maxUnsigned32 ∧ img.height ≤ maxUnsigned32

instance (img : Image) : Decidable img.IsBounded := inferInstanceAs (Decidable (_ ∧ _))

namespace Footprint

open WholeScalar

variable {α : Type} [Scalar α]

/-- What a span comes to in pixels: the first one and how many there are. -/
def pixels (start size : α) (length : Nat) : Nat × Nat :=
  (Scalar.clampNat length (span start size (Scalar.ofNat length)).1,
    Scalar.clampNat length ((span start size (Scalar.ofNat length)).2 -
      (span start size (Scalar.ofNat length)).1))

/-- The footprint of a rectangle that is finite, axis by axis. -/
theorem of_eq {f : ImageFragment α} (h : f.rect.isFinite = true) :
    of f =
      { box := ⟨(pixels f.rect.uv.x f.rect.size.x f.image.width).1,
          (pixels f.rect.uv.y f.rect.size.y f.image.height).1,
          (pixels f.rect.uv.x f.rect.size.x f.image.width).2,
          (pixels f.rect.uv.y f.rect.size.y f.image.height).2⟩
        remainder :=
          ⟨f.rect.uv.x - (span f.rect.uv.x f.rect.size.x (Scalar.ofNat f.image.width)).1,
            f.rect.uv.y - (span f.rect.uv.y f.rect.size.y (Scalar.ofNat f.image.height)).1⟩
        size := f.rect.size } := by
  unfold of
  simp only [h, if_true]
  rfl

variable [WholeScalar α]

/-- The pixels of a span, and the one behind it, are pixels of the axis. -/
theorem exists_isWhole_span (start size : α) {length : Nat}
    (hlength : IsWhole (Scalar.ofNat length : α) length) :
    ∃ m n, m ≤ n ∧ n ≤ length ∧ IsWhole (span start size (Scalar.ofNat length)).1 m ∧
      IsWhole (span start size (Scalar.ofNat length)).2 n := by
  have hzero : IsWhole (0 : α) 0 := isWhole_ofNat (Nat.zero_le _)
  obtain ⟨m, -, hm, hfirst⟩ := exists_isWhole_between (integral_floor start) hzero hlength
    (Nat.zero_le _)
  obtain ⟨n, hmn, hn, hbehind⟩ := exists_isWhole_between (integral_ceil (start + size)) hfirst
    hlength hm
  exact ⟨m, n, hmn, hn, hfirst, hbehind⟩

/-- Counted in pixels, a span is its first pixel and the number of its pixels. -/
theorem exists_pixels_eq (start size : α) {length : Nat}
    (hlength : IsWhole (Scalar.ofNat length : α) length) :
    ∃ m n, m ≤ n ∧ n ≤ length ∧ IsWhole (span start size (Scalar.ofNat length)).1 m ∧
      IsWhole (span start size (Scalar.ofNat length)).2 n ∧
        pixels start size length = (m, n - m) := by
  obtain ⟨m, n, hmn, hn, hfirst, hbehind⟩ := exists_isWhole_span start size hlength
  have hdiff := isWhole_sub hbehind hfirst hmn
  refine ⟨m, n, hmn, hn, hfirst, hbehind, ?_⟩
  rw [pixels, clampNat_eq hfirst (Nat.le_trans hmn hn),
    clampNat_eq hdiff (Nat.le_trans (Nat.sub_le _ _) hn)]

/-- Counted in pixels, a span lies within the axis. -/
theorem pixels_le (start size : α) {length : Nat}
    (hlength : IsWhole (Scalar.ofNat length : α) length) :
    (pixels start size length).1 + (pixels start size length).2 ≤ length := by
  obtain ⟨m, n, hmn, hn, -, -, heq⟩ := exists_pixels_eq start size hlength
  rw [heq]
  simp only
  omega

/-- The box of a footprint lies in the image. -/
theorem box_inside (f : ImageFragment α) (h : f.image.IsBounded) :
    (of f).box.x + (of f).box.width ≤ f.image.width ∧
      (of f).box.y + (of f).box.height ≤ f.image.height := by
  cases hfinite : f.rect.isFinite with
  | true =>
    rw [of_eq hfinite]
    exact ⟨pixels_le _ _ (isWhole_ofNat h.1), pixels_le _ _ (isWhole_ofNat h.2)⟩
  | false =>
    simp only [of, hfinite]
    exact ⟨Nat.zero_le _, Nat.zero_le _⟩

end Footprint

end BlockModels
