import BlockModels.Atlas.Basic
import BlockModels.Proofs.Lists
import BlockModels.Proofs.Packing.Tiling

/-!
# Copying rows of pixels

What an atlas shows is said pixel by pixel. A row that is copied replaces the pixels of its target
(`Image.getD_copyRow`), the rows of a footprint replace those of its region (`Atlas.get_blit`), and
of all fragments that are copied one after another, a position shows what every fragment at this
position would show (`Atlas.get_foldl_blit`).

A row that does not lie in both images ends the copying. Whether one does can be told beforehand,
since no image changes its size: either every row can be copied and nothing was checked in vain, or
there is no result (`Atlas.compose?_eq`).
-/

namespace BlockModels

/-- Positions are determined by their place in the order of pixels. -/
theorem index_inj {w x y a b : Nat} (hx : x < w) (ha : a < w) :
    y * w + x = b * w + a ↔ y = b ∧ x = a := by
  refine ⟨fun h => ?_, fun ⟨hy, hx⟩ => by rw [hy, hx]⟩
  have hdiv := congrArg (· / w) h
  have hmod := congrArg (· % w) h
  have hw : 0 < w := Nat.lt_of_le_of_lt (Nat.zero_le _) hx
  simp only [Nat.mul_comm _ w, Nat.mul_add_div hw, Nat.div_eq_of_lt hx, Nat.div_eq_of_lt ha,
    Nat.add_zero] at hdiv
  simp only [Nat.mul_add_mod', Nat.mod_eq_of_lt hx, Nat.mod_eq_of_lt ha] at hmod
  exact ⟨hdiv, hmod⟩

/-- The index of a pixel is within the pixels of an image. -/
theorem index_lt {w h x y : Nat} (hx : x < w) (hy : y < h) : y * w + x < w * h := by
  have hrow : (y + 1) * w ≤ h * w := Nat.mul_le_mul_right w hy
  rw [Nat.add_mul, Nat.one_mul] at hrow
  rw [Nat.mul_comm w h]
  omega

/-- A row between the sides of an image lies in its pixels. -/
theorem row_le {width height x y n : Nat} (hx : x + n ≤ width) (hy : y < height) :
    y * width + x + n ≤ width * height := by
  have hrow : (y + 1) * width ≤ height * width := Nat.mul_le_mul_right width hy
  rw [Nat.add_mul, Nat.one_mul] at hrow
  rw [Nat.mul_comm width height]
  omega

namespace Image

/-- The image has the given sides. -/
def HasSize (img : Image) (width height : Nat) : Prop := img.width = width ∧ img.height = height

/-- An image of this size has as many pixels. -/
theorem HasSize.size_eq {img : Image} {width height : Nat} (h : img.HasSize width height) :
    img.pixels.size = width * height := by
  rw [img.size_pixels, h.1, h.2]

/-- The index of a pixel, by the width of the image. -/
theorem HasSize.index_eq {img : Image} {width height : Nat} (h : img.HasSize width height)
    (x y : Nat) : img.index x y = y * width + x := by
  rw [index, h.1]

/-- A pixel is found at its index. -/
theorem HasSize.get_eq {img : Image} {width height : Nat} (h : img.HasSize width height)
    (x y : Nat) : img.get x y = img.pixels.getD (y * width + x) .transparent := by
  rw [get, h.index_eq]

/-- A filled image has the size it is made with. -/
theorem hasSize_fill (width height : Nat) (p : Pixel) :
    (fill width height p).HasSize width height :=
  ⟨rfl, rfl⟩

/-- Each pixel of a filled image is the one it is filled with. -/
theorem get_fill {width height x y : Nat} (p : Pixel) (hx : x < width) (hy : y < height) :
    (fill width height p).get x y = p := by
  have hlt : y * width + x < width * height := index_lt hx hy
  simp [get, index, fill, Array.getD, hlt]

/-- Putting a pixel changes the one at its index. -/
theorem getD_put {img : Image} {j : Nat} (i : Nat) (p : Pixel) (hj : j < img.pixels.size) :
    (img.put i p).pixels.getD j .transparent =
      if i = j then p else img.pixels.getD j .transparent := by
  simp [put, Array.getD, hj, Array.getElem_setIfInBounds]

/-- Steps that keep the size of an image keep it however many there are. -/
theorem HasSize.foldl {β : Type} {step : Image → β → Image} {width height : Nat}
    (hstep : ∀ img b, img.HasSize width height → (step img b).HasSize width height) {img : Image}
    (h : img.HasSize width height) (l : List β) : (l.foldl step img).HasSize width height := by
  induction l generalizing img with
  | nil => exact h
  | cons b rest ih => exact ih (hstep img b h)

/-- Putting pixels keeps the size of an image. -/
theorem HasSize.foldl_put {β : Type} {img : Image} {width height : Nat}
    (h : img.HasSize width height) (place : β → Nat) (pixel : β → Pixel) (l : List β) :
    (l.foldl (fun img k => img.put (place k) (pixel k)) img).HasSize width height := by
  refine h.foldl (fun img k himg => ?_) l
  exact himg

/-- Copying a row keeps the size of an image. -/
theorem HasSize.copyRow {img : Image} {width height : Nat} (h : img.HasSize width height)
    (source : Image) (c : RowCopy) : (source.copyRow img c).HasSize width height :=
  h.foldl_put _ _ _

/-- A row that is copied replaces the pixels of its target. -/
theorem getD_copyRow (source : Image) {img : Image} (c : RowCopy) {i : Nat}
    (hi : i < img.pixels.size) :
    (source.copyRow img c).pixels.getD i .transparent =
      if c.target ≤ i ∧ i < c.target + c.length then
        source.pixels.getD (c.source + (i - c.target)) .transparent
      else img.pixels.getD i .transparent := by
  unfold copyRow
  generalize c.length = n
  induction n with
  | zero =>
    rw [if_neg (by omega)]
    rfl
  | succ n ih =>
    rw [List.range_succ, List.foldl_append, List.foldl_cons, List.foldl_nil]
    have himg : img.HasSize img.width img.height := ⟨rfl, rfl⟩
    have hsize := (himg.foldl_put (fun k => c.target + k)
      (fun k => source.pixels.getD (c.source + k) .transparent) (List.range n)).size_eq
    rw [getD_put _ _ (by rw [hsize, ← img.size_pixels]; exact hi), ih]
    by_cases h : c.target + n = i
    · rw [if_pos h, if_pos (by omega)]
      congr 2
      omega
    · rw [if_neg h]
      by_cases hin : c.target ≤ i ∧ i < c.target + n
      · rw [if_pos hin, if_pos (by omega)]
      · rw [if_neg hin, if_neg (by omega)]

/-- The rows in the pixels of both images are those that can be copied. -/
def IsCopyable (source : Image) (width height : Nat) (c : RowCopy) : Prop :=
  c.source + c.length ≤ source.pixels.size ∧ c.target + c.length ≤ width * height

instance (source : Image) (width height : Nat) (c : RowCopy) :
    Decidable (source.IsCopyable width height c) := inferInstanceAs (Decidable (_ ∧ _))

/-- Checked copies of rows succeed exactly if each is possible, and then do what the unchecked ones
do. -/
theorem foldlM_copyRow? (source : Image) {width height : Nat} {copies : List RowCopy} {img : Image}
    (h : img.HasSize width height) :
    copies.foldlM source.copyRow? img =
      if ∀ c ∈ copies, source.IsCopyable width height c then
        some (copies.foldl source.copyRow img)
      else none := by
  refine foldlM_eq_ite (fun img => img.HasSize width height) _ (fun b hb c _ => ?_)
    (fun b c hb => hb.copyRow source c) h
  rw [copyRow?, hb.size_eq]
  rfl

end Image

namespace Footprint

variable {α : Type}

/-- The positions at which the pixels of a footprint are shown. -/
def region (p : Footprint α) (corner : Nat × Nat) : PixelBox :=
  ⟨corner.1, corner.2, p.box.width, p.box.height⟩

/-- The pixel that a footprint shows at a position of its region. -/
def pixelAt (p : Footprint α) (source : Image) (corner : Nat × Nat) (x y : Nat) : Pixel :=
  source.get (p.box.x + (x - corner.1)) (p.box.y + (y - corner.2))

/-- A fragment that covers a position has an extent. -/
theorem isEmpty_eq_false {p : Footprint α} {corner : Nat × Nat} {x y : Nat}
    (h : (p.region corner).contains x y = true) : p.pixelSize.isEmpty = false := by
  rw [PixelBox.contains_iff] at h
  simp only [region] at h
  rw [PixelSize.isEmpty_eq_false_iff]
  simp only [pixelSize]
  omega

/-- The rows that are copied are those of the box, each to its place under the corner. -/
theorem mem_rowCopies {p : Footprint α} {sourceWidth targetWidth : Nat} {corner : Nat × Nat}
    {c : RowCopy} :
    c ∈ p.rowCopies sourceWidth targetWidth corner ↔
      ∃ row < p.box.height, c = ⟨(p.box.y + row) * sourceWidth + p.box.x,
        (corner.2 + row) * targetWidth + corner.1, p.box.width⟩ := by
  simp only [rowCopies, List.mem_map, List.mem_range]
  constructor
  · rintro ⟨row, hrow, rfl⟩
    exact ⟨row, hrow, rfl⟩
  · rintro ⟨row, hrow, rfl⟩
    exact ⟨row, hrow, rfl⟩

end Footprint

namespace Atlas

variable {α : Type}

/-- A fragment with its footprint and the place of that. -/
abbrev Slot (α : Type) : Type := ImageFragment α × Footprint α × (Nat × Nat)

/-- The fragment of a slot, copied to its place on an image of the given width. -/
def blit (width : Nat) (canvas : Image) (s : Slot α) : Image :=
  (s.2.1.rowCopies s.1.image.width width s.2.2).foldl s.1.image.copyRow canvas

/-- All rows of the slot can be copied to an image of the given size. -/
def Slot.IsCopyable (width height : Nat) (s : Slot α) : Prop :=
  ∀ c ∈ s.2.1.rowCopies s.1.image.width width s.2.2, s.1.image.IsCopyable width height c

instance (width height : Nat) (s : Slot α) : Decidable (Slot.IsCopyable width height s) :=
  inferInstanceAs (Decidable (∀ _ ∈ _, _))

/-- Copying rows keeps the size of the canvas. -/
theorem hasSize_foldl_copyRow {source canvas : Image} {width height : Nat}
    (h : canvas.HasSize width height) (copies : List RowCopy) :
    (copies.foldl source.copyRow canvas).HasSize width height :=
  h.foldl (fun _ c himg => himg.copyRow source c) copies

/-- Drawing a slot keeps the size of the canvas. -/
theorem hasSize_blit {canvas : Image} {width height : Nat} (h : canvas.HasSize width height)
    (s : Slot α) : (blit width canvas s).HasSize width height :=
  hasSize_foldl_copyRow h _

/-- Drawing slots keeps the size of the canvas. -/
theorem hasSize_foldl_blit {canvas : Image} {width height : Nat}
    (h : canvas.HasSize width height) (slots : List (Slot α)) :
    (slots.foldl (blit width) canvas).HasSize width height :=
  h.foldl (fun _ s himg => hasSize_blit himg s) slots

/-- An atlas is composed if all of its slots can be copied, by copying them one after another. -/
theorem compose?_eq (width height : Nat) (slots : List (Slot α)) :
    compose? width height slots =
      if ∀ s ∈ slots, Slot.IsCopyable width height s then
        some (slots.foldl (blit width) (.fill width height .transparent))
      else none := by
  refine foldlM_eq_ite (fun canvas => canvas.HasSize width height) _ (fun b hb s _ => ?_)
    (fun b s hb => hasSize_blit hb s) (Image.hasSize_fill _ _ _)
  exact Image.foldlM_copyRow? s.1.image hb

/-- A place in the order of pixels lies in a row that is copied if the position is in that row, and
between the ends of it. -/
theorem mem_row_iff {width x y a b n : Nat} (hx : x < width) (hn : a + n ≤ width) :
    (b * width + a ≤ y * width + x ∧ y * width + x < b * width + a + n) ↔
      y = b ∧ a ≤ x ∧ x < a + n := by
  refine ⟨fun ⟨hlow, hhigh⟩ => ?_, fun ⟨hy, hlow, hhigh⟩ => by subst hy; omega⟩
  obtain ⟨k, hk⟩ := Nat.exists_eq_add_of_le hlow
  have heq : y * width + x = b * width + (a + k) := by omega
  obtain ⟨hy, hxk⟩ := (index_inj hx (by omega)).1 heq
  omega

/-- The rows of a footprint replace the pixels of its region. -/
theorem get_blit {canvas : Image} {width height : Nat} (h : canvas.HasSize width height)
    {s : Slot α} (hs : s.2.2.1 + s.2.1.box.width ≤ width) {x y : Nat} (hx : x < width)
    (hy : y < height) :
    (blit width canvas s).get x y =
      if (s.2.1.region s.2.2).contains x y then s.2.1.pixelAt s.1.image s.2.2 x y
      else canvas.get x y := by
  obtain ⟨f, p, corner⟩ := s
  have hbox : (p.region corner).contains x y = true ↔
      (corner.1 ≤ x ∧ x < corner.1 + p.box.width) ∧ corner.2 ≤ y ∧
        y < corner.2 + p.box.height := by
    rw [PixelBox.contains_iff]
    simp only [Footprint.region]
    omega
  simp only [hbox]
  -- By induction on the number of rows that were copied.
  simp only [blit, Footprint.rowCopies]
  generalize p.box.height = n
  induction n with
  | zero =>
    rw [if_neg (by omega)]
    rfl
  | succ n ih =>
    rw [List.range_succ, List.map_append, List.foldl_append]
    simp only [List.map_cons, List.map_nil, List.foldl_cons, List.foldl_nil]
    generalize hrows : ((List.range n).map _).foldl f.image.copyRow canvas = img at ih ⊢
    have himg : img.HasSize width height := hrows ▸ hasSize_foldl_copyRow h _
    have hi : y * width + x < img.pixels.size := himg.size_eq ▸ index_lt hx hy
    have hrow := mem_row_iff (y := y) (b := corner.2 + n) hx hs
    rw [(himg.copyRow _ _).get_eq, Image.getD_copyRow _ _ hi]
    simp only [hrow]
    by_cases hin : y = corner.2 + n ∧ corner.1 ≤ x ∧ x < corner.1 + p.box.width
    · obtain ⟨rfl, hlow, hhigh⟩ := hin
      rw [if_pos ⟨rfl, hlow, hhigh⟩, if_pos (by omega), Footprint.pixelAt, Image.get, Image.index]
      congr 1
      rw [Nat.add_sub_cancel_left]
      omega
    · rw [if_neg hin, ← himg.get_eq, ih]
      by_cases hbefore : (corner.1 ≤ x ∧ x < corner.1 + p.box.width) ∧ corner.2 ≤ y ∧
          y < corner.2 + n
      · rw [if_pos hbefore, if_pos (by omega)]
      · rw [if_neg hbefore, if_neg (by omega)]

/-- After several slots were copied, a position shows what each of them shows that is there. -/
theorem get_foldl_blit {canvas : Image} {width height : Nat} (h : canvas.HasSize width height)
    {slots : List (Slot α)} (hslots : ∀ s ∈ slots, s.2.2.1 + s.2.1.box.width ≤ width) {x y : Nat}
    (hx : x < width) (hy : y < height) {v : Pixel}
    (hv : ∀ s ∈ slots, (s.2.1.region s.2.2).contains x y = true →
      s.2.1.pixelAt s.1.image s.2.2 x y = v)
    (hshown : canvas.get x y = v ∨ ∃ s ∈ slots, (s.2.1.region s.2.2).contains x y = true) :
    (slots.foldl (blit width) canvas).get x y = v := by
  induction slots generalizing canvas with
  | nil => simpa using hshown
  | cons s rest ih =>
    have hget := get_blit h (hslots s List.mem_cons_self) hx hy
    refine ih (hasSize_blit h s) (fun t ht => hslots t (List.mem_cons_of_mem _ ht))
      (fun t ht => hv t (List.mem_cons_of_mem _ ht)) ?_
    rw [hget]
    by_cases hs : (s.2.1.region s.2.2).contains x y = true
    · rw [if_pos hs]
      exact Or.inl (hv s List.mem_cons_self hs)
    · rw [if_neg hs]
      rcases hshown with hcanvas | ⟨t, ht, hin⟩
      · exact Or.inl hcanvas
      · rcases List.mem_cons.1 ht with rfl | ht
        · exact absurd hin hs
        · exact Or.inr ⟨t, ht, hin⟩

end Atlas

end BlockModels
