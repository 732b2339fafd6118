import BlockModels.Proofs.Atlas.Copying
import BlockModels.Proofs.Atlas.Footprint
import BlockModels.Proofs.Packing.Order
import BlockModels.Proofs.Scalar.Floating
import BlockModels.Proofs.Scalar.Rational

/-!
# What an atlas shows

An atlas shows every pixel that a fragment needs, at the place of the fragment, and nothing else
(`Atlas.Shows`): the regions of the fragments share no position, so no fragment is overwritten by a
later one. In exact arithmetic a placement says where: whatever point of its rectangle and of its
image a fragment has, the same displacement from the corner of the placement leads to the same pixel
(`Atlas.Samples`).
-/

namespace BlockModels

/-- Rational numbers are all finite. -/
theorem Rect.isFinite_rat (r : Rect Rat) : r.isFinite = true := by
  simp [Rect.isFinite, Scalar.isFinite]

namespace Footprint

/-- The pixels that a span touches begin at the floor of its start, within the image. -/
theorem span_fst (start size : Rat) (length : Nat) :
    (span start size (Scalar.ofNat length)).1 = min (max (⌊start⌋ : Rat) 0) length := by
  simp [span]

/-- The pixels that a span touches end at the ceiling of its end, within the image. -/
theorem span_snd (start size : Rat) (length : Nat) :
    (span start size (Scalar.ofNat length)).2 =
      min (max (⌈start + size⌉ : Rat) (span start size (Scalar.ofNat length)).1) length := by
  simp [span]

end Footprint

namespace Atlas

section

variable {α : Type} [Scalar α] {fragments : List (ImageFragment α)}

/-- The sizes that are packed. -/
def sizes (fragments : List (ImageFragment α)) : List PixelSize :=
  fragments.map fun f => (Footprint.of f).pixelSize

/-- The packing of the fragments. -/
def packing (fragments : List (ImageFragment α)) : Packing := pack α (sizes fragments)

/-- Where a fragment is shown. -/
def regionOf (fragments : List (ImageFragment α)) (i : Nat) (f : ImageFragment α) : PixelBox :=
  (Footprint.of f).region ((packing fragments).corner i)

/-- Each fragment is packed by the size of its footprint. -/
theorem getElem?_sizes {i : Nat} {f : ImageFragment α} (h : fragments[i]? = some f) :
    (sizes fragments)[i]? = some (Footprint.of f).pixelSize := by
  rw [sizes, List.getElem?_map, h]
  rfl

/-- A slot is a fragment with its footprint, at the corner that it was packed to. -/
theorem mem_slots {p : Packing} {s : Slot α} :
    s ∈ slots fragments p ↔
      ∃ i f, fragments[i]? = some f ∧ s = (f, Footprint.of f, p.corner i) := by
  rw [slots, List.mem_map]
  constructor
  · rintro ⟨⟨f, i⟩, hmem, rfl⟩
    exact ⟨i, f, List.mk_mem_zipIdx_iff_getElem?.1 hmem, rfl⟩
  · rintro ⟨i, f, hf, rfl⟩
    exact ⟨(f, i), List.mk_mem_zipIdx_iff_getElem?.2 hf, rfl⟩

/-- No two fragments cover the same position. -/
theorem eq_of_regionOf_contains {i j : Nat} {f g : ImageFragment α} (hi : fragments[i]? = some f)
    (hj : fragments[j]? = some g) {x y : Nat} (hx : (regionOf fragments i f).contains x y = true)
    (hy : (regionOf fragments j g).contains x y = true) : i = j := by
  by_contra hij
  have hapart := (pack_valid α (sizes fragments)).apart i j _ _ hij (getElem?_sizes hi)
    (getElem?_sizes hj) (Footprint.isEmpty_eq_false hx) (Footprint.isEmpty_eq_false hy) x y hx
  exact Bool.noConfusion (hapart.symm.trans hy)

/-- A packing is as wide as its strip. -/
theorem width_pack (sizes : List PixelSize) : (pack α sizes).width = stripWidth α sizes := by
  unfold pack
  simp only
  split <;> rfl

/-- A box that is not placed counts as being in the first corner. -/
theorem corner_of_isEmpty {i : Nat} {f : ImageFragment α} (hi : fragments[i]? = some f)
    (hempty : (Footprint.of f).pixelSize.isEmpty = true) :
    (packing fragments).corner i = (0, 0) := by
  have hnone := (pack_valid α (sizes fragments)).unplaced i _ (getElem?_sizes hi) hempty
  rw [Packing.corner, packing, hnone]

/-- No fragment goes beyond the right side of the atlas. -/
theorem corner_add_width_le {i : Nat} {f : ImageFragment α} (hi : fragments[i]? = some f) :
    ((packing fragments).corner i).1 + (Footprint.of f).box.width ≤ (packing fragments).width := by
  cases hempty : (Footprint.of f).pixelSize.isEmpty with
  | true =>
    rw [corner_of_isEmpty hi hempty, Nat.zero_add, packing, width_pack]
    exact width_le_stripWidth α (List.mem_of_getElem? (getElem?_sizes hi))
  | false => exact ((pack_valid α (sizes fragments)).inside i _ (getElem?_sizes hi) hempty).1

/-- No fragment that is placed goes below the atlas. -/
theorem corner_add_height_le {i : Nat} {f : ImageFragment α} (hi : fragments[i]? = some f)
    (hempty : (Footprint.of f).pixelSize.isEmpty = false) :
    ((packing fragments).corner i).2 + (Footprint.of f).box.height ≤ (packing fragments).height :=
  ((pack_valid α (sizes fragments)).inside i _ (getElem?_sizes hi) hempty).2

/-! ## Pixel by pixel -/

/-- Every pixel of a footprint is shown at the place of its fragment, and nothing is shown where no
fragment is. -/
structure Shows (a : Atlas α) (fragments : List (ImageFragment α)) : Prop where
  inside : ∀ i f, fragments[i]? = some f → ∀ x y, x < (Footprint.of f).box.width →
    y < (Footprint.of f).box.height →
      ((packing fragments).corner i).1 + x < a.image.width ∧
      ((packing fragments).corner i).2 + y < a.image.height ∧
      (Footprint.of f).box.x + x < f.image.width ∧ (Footprint.of f).box.y + y < f.image.height
  pixel : ∀ i f, fragments[i]? = some f → ∀ x y, x < (Footprint.of f).box.width →
    y < (Footprint.of f).box.height →
      a.image.get (((packing fragments).corner i).1 + x) (((packing fragments).corner i).2 + y) =
        f.image.get ((Footprint.of f).box.x + x) ((Footprint.of f).box.y + y)
  blank : ∀ x y, x < a.image.width → y < a.image.height →
    (∀ i f, fragments[i]? = some f → (regionOf fragments i f).contains x y = false) →
      a.image.get x y = .transparent

/-- An atlas without outline is composed of its slots, and not enlarged. -/
theorem plain?_eq_some {p : Packing} {a : Atlas α} (h : plain? fragments p = some a) :
    compose? (max p.width 1) (max p.height 1) (slots fragments p) = some a.image ∧
      a.placements = (slots fragments p).map (fun s => s.2.1.placedAt s.2.2 s.1.crop) ∧
        a.factor = 1 := by
  obtain ⟨image, himage, ha⟩ := Option.bind_eq_some_iff.1 h
  cases ha
  exact ⟨himage, rfl, rfl⟩

/-- The image of an atlas without outline: its slots, one drawn after another. -/
theorem image_plain? {p : Packing} {a : Atlas α} (h : plain? fragments p = some a) :
    a.image = (slots fragments p).foldl (blit (max p.width 1))
      (.fill (max p.width 1) (max p.height 1) .transparent) := by
  have hcompose := (plain?_eq_some h).1
  rw [compose?_eq] at hcompose
  split at hcompose
  · exact (Option.some.inj hcompose).symm
  · cases hcompose

/-- An atlas has the size of its packing, and at least one pixel. -/
theorem hasSize_plain? {p : Packing} {a : Atlas α} (h : plain? fragments p = some a) :
    a.image.HasSize (max p.width 1) (max p.height 1) := by
  rw [image_plain? h]
  exact hasSize_foldl_blit (Image.hasSize_fill _ _ _) _

/-- Each fragment has its placement. -/
theorem getElem?_placements {a : Atlas α} (h : plain? fragments (packing fragments) = some a)
    {i : Nat} {f : ImageFragment α} (hi : fragments[i]? = some f) :
    a.placements[i]? = some ((Footprint.of f).placedAt ((packing fragments).corner i) f.crop) := by
  rw [(plain?_eq_some h).2.1, slots, List.map_map, List.getElem?_map, List.getElem?_zipIdx, hi]
  simp

/-- At a position the atlas shows what the fragment shows that covers it, or nothing. -/
theorem get_plain? {a : Atlas α} (h : plain? fragments (packing fragments) = some a) {x y : Nat}
    (hx : x < a.image.width) (hy : y < a.image.height) {v : Pixel}
    (hv : ∀ i f, fragments[i]? = some f → (regionOf fragments i f).contains x y = true →
      (Footprint.of f).pixelAt f.image ((packing fragments).corner i) x y = v)
    (hshown : v = .transparent ∨
      ∃ i f, fragments[i]? = some f ∧ (regionOf fragments i f).contains x y = true) :
    a.image.get x y = v := by
  have hsize := hasSize_plain? h
  rw [hsize.1] at hx
  rw [hsize.2] at hy
  rw [image_plain? h]
  refine get_foldl_blit (Image.hasSize_fill _ _ _) (fun s hs => ?_) hx hy (fun s hs hin => ?_) ?_
  · obtain ⟨i, f, hi, rfl⟩ := mem_slots.1 hs
    exact Nat.le_trans (corner_add_width_le hi) (Nat.le_max_left _ _)
  · obtain ⟨i, f, hi, rfl⟩ := mem_slots.1 hs
    exact hv i f hi hin
  · rcases hshown with rfl | ⟨i, f, hi, hin⟩
    · exact Or.inl (Image.get_fill _ hx hy)
    · exact Or.inr ⟨_, mem_slots.2 ⟨i, f, hi, rfl⟩, hin⟩

/-- Where a fragment is shown there are pixels of the atlas. -/
theorem lt_of_regionOf_contains {a : Atlas α} (h : plain? fragments (packing fragments) = some a)
    {i : Nat} {f : ImageFragment α} (hi : fragments[i]? = some f) {x y : Nat}
    (hin : (regionOf fragments i f).contains x y = true) :
    x < a.image.width ∧ y < a.image.height := by
  have hsize := hasSize_plain? h
  have hw := corner_add_width_le hi
  have hh := corner_add_height_le hi (Footprint.isEmpty_eq_false hin)
  rw [PixelBox.contains_iff] at hin
  simp only [regionOf, Footprint.region] at hin
  rw [hsize.1, hsize.2]
  omega

/-- What was composed shows the fragments, and nothing else. -/
theorem shows_of_plain? [WholeScalar α] (hbounded : ∀ f ∈ fragments, f.image.IsBounded)
    {a : Atlas α} (h : plain? fragments (packing fragments) = some a) : a.Shows fragments := by
  -- The region of a fragment covers the places of the pixels of its footprint.
  have hplace : ∀ i f, fragments[i]? = some f → ∀ x y, x < (Footprint.of f).box.width →
      y < (Footprint.of f).box.height →
        (regionOf fragments i f).contains (((packing fragments).corner i).1 + x)
          (((packing fragments).corner i).2 + y) = true := by
    intro i f hi x y hx hy
    rw [PixelBox.contains_iff]
    simp only [regionOf, Footprint.region]
    omega
  exact {
    inside := by
      intro i f hi x y hx hy
      obtain ⟨hw, hh⟩ := lt_of_regionOf_contains h hi (hplace i f hi x y hx hy)
      obtain ⟨hbw, hbh⟩ := Footprint.box_inside f (hbounded f (List.mem_of_getElem? hi))
      exact ⟨hw, hh, by omega, by omega⟩
    pixel := by
      intro i f hi x y hx hy
      have hin := hplace i f hi x y hx hy
      obtain ⟨hw, hh⟩ := lt_of_regionOf_contains h hi hin
      refine get_plain? h hw hh (fun j g hj hj' => ?_) (Or.inr ⟨i, f, hi, hin⟩)
      obtain rfl := eq_of_regionOf_contains hi hj hin hj'
      rw [hi] at hj
      cases hj
      rw [Footprint.pixelAt, Nat.add_sub_cancel_left, Nat.add_sub_cancel_left]
    blank := by
      intro x y hx hy hnone
      refine get_plain? h hx hy (fun i f hi hin => ?_) (Or.inl rfl)
      rw [hnone i f hi] at hin
      cases hin }

/-- The atlas that was composed, with its lines if there are to be any. -/
theorem ofFragments?_eq (hne : fragments ≠ []) (outline : Option (Outline α)) :
    ofFragments? fragments outline = (plain? fragments (packing fragments)).map fun a =>
      match outline with
      | none => a
      | some o => a.outlined (regions fragments (packing fragments)) o := by
  have hempty : ¬fragments.isEmpty = true := by simpa using hne
  rw [ofFragments?, if_neg hempty, Option.map_eq_bind]
  cases outline <;> rfl

/-- Where the boxes are listed in the order of both keys, they are packed as they are listed. -/
theorem ofFragments?_of_pairwise {boxes : List PixelSize} (hne : fragments ≠ [])
    (hboxes : sizes fragments = boxes)
    (harea : boxes.Pairwise fun s t => keyAtLeast (s.area, s.height) (t.area, t.height) = true)
    (hwidth : boxes.Pairwise fun s t => keyAtLeast (s.width, s.height) (t.width, t.height) = true) :
    ofFragments? fragments none =
      plain? fragments (packInOrder (stripWidth α boxes) boxes.zipIdx) := by
  rw [ofFragments?_eq hne, packing, hboxes, pack_of_pairwise α harea hwidth]
  exact Option.map_id'

/-- Every atlas on which nothing is drawn shows its fragments; the one of none shows nothing. -/
theorem shows_of_ofFragments? [WholeScalar α] (hbounded : ∀ f ∈ fragments, f.image.IsBounded)
    {a : Atlas α} (h : ofFragments? fragments none = some a) : a.Shows fragments := by
  cases fragments with
  | nil =>
    cases h
    refine ⟨fun i f hi => by simp at hi, fun i f hi => by simp at hi, fun x y hx hy _ => ?_⟩
    exact Image.get_fill _ hx hy
  | cons f rest =>
    rw [ofFragments?_eq (List.cons_ne_nil f rest), Option.map_id'] at h
    exact shows_of_plain? hbounded h

end

/-! ## Point by point -/

/-- The displacement leads from the corner of the rectangle to a point of the rectangle that is also
one of the image. -/
structure HasPoint (f : ImageFragment Rat) (t : Vec2 Rat) : Prop where
  right : 0 ≤ t.x ∧ t.x < f.rect.size.x
  down : 0 ≤ t.y ∧ t.y < f.rect.size.y
  across : 0 ≤ f.rect.uv.x + t.x ∧ f.rect.uv.x + t.x < f.image.width
  along : 0 ≤ f.rect.uv.y + t.y ∧ f.rect.uv.y + t.y < f.image.height

/-- Whatever point of its rectangle and of its image a fragment has, the pixel of the atlas that
lies as far from the corner of the fragment's placement is the pixel of the image at this point. -/
def Samples (a : Atlas Rat) (fragments : List (ImageFragment Rat)) : Prop :=
  ∀ (i : Nat) (f : ImageFragment Rat), fragments[i]? = some f →
    ∃ place, a.placements[i]? = some place ∧ ∀ t, HasPoint f t →
      (0 ≤ ⌊place.rect.uv.x + t.x⌋ ∧ ⌊place.rect.uv.x + t.x⌋ < a.image.width) ∧
      (0 ≤ ⌊place.rect.uv.y + t.y⌋ ∧ ⌊place.rect.uv.y + t.y⌋ < a.image.height) ∧
      a.image.get ⌊place.rect.uv.x + t.x⌋.toNat ⌊place.rect.uv.y + t.y⌋.toNat =
        f.image.get ⌊f.rect.uv.x + t.x⌋.toNat ⌊f.rect.uv.y + t.y⌋.toNat

/-- On one axis: a point of the rectangle and of the image is in a pixel of the span, and the
displacement leads from the remainder to the same pixel, wherever the span has its first one. -/
theorem exists_pixel {start size t : Rat} {length : Nat} (ht : 0 ≤ t) (hsize : t < size)
    (hlow : 0 ≤ start + t) (hhigh : start + t < length) :
    ∃ k, k < (Footprint.pixels start size length).2 ∧
      ⌊start + t⌋ = ((Footprint.pixels start size length).1 + k : Nat) ∧
      ∀ corner : Nat,
        ⌊(corner + (start - (Footprint.span start size (Scalar.ofNat length)).1)) + t⌋ =
          (corner + k : Nat) := by
  have hwhole : WholeScalar.IsWhole (Scalar.ofNat length : Rat) length := rfl
  obtain ⟨m, n, hmn, hn, hfirst, hbehind, heq⟩ := Footprint.exists_pixels_eq start size hwhole
  rw [heq]
  -- The span as it is defined, and as natural numbers.
  have hfirst' : (Footprint.span start size (Scalar.ofNat length)).1 = (m : Rat) := hfirst
  have hbehind' : (Footprint.span start size (Scalar.ofNat length)).2 = (n : Rat) := hbehind
  have hm : (m : Rat) ≤ start + t := by
    rw [← hfirst', Footprint.span_fst]
    refine (min_le_left _ _).trans (max_le ?_ hlow)
    exact (Int.floor_le start).trans (by linarith)
  have hnt : start + t < (n : Rat) := by
    rw [← hbehind', Footprint.span_snd]
    refine lt_min (lt_of_lt_of_le ?_ (le_max_left _ _)) hhigh
    exact lt_of_lt_of_le (by linarith) (Int.le_ceil (start + size))
  have hmfloor : (m : Int) ≤ ⌊start + t⌋ := Int.le_floor.2 (by exact_mod_cast hm)
  have hnfloor : ⌊start + t⌋ < (n : Int) := Int.floor_lt.2 (by exact_mod_cast hnt)
  refine ⟨(⌊start + t⌋ - m).toNat, by omega, by simp only; omega, fun corner => ?_⟩
  have hsum : (corner + (start - (m : Rat))) + t =
      (start + t) + ((corner : Int) - (m : Int) : Int) := by
    push_cast
    ring
  rw [hfirst', hsum, Int.floor_add_intCast]
  omega

/-- What shows the fragments shows each of their points where the placement says. -/
theorem samples_of_plain? {fragments : List (ImageFragment Rat)}
    (hbounded : ∀ f ∈ fragments, f.image.IsBounded) {a : Atlas Rat}
    (h : plain? fragments (packing fragments) = some a) : a.Samples fragments := by
  intro i f hi
  have hshows := shows_of_plain? hbounded h
  refine ⟨_, getElem?_placements h hi, fun t ht => ?_⟩
  obtain ⟨k, hk, hpx, hqx⟩ := exists_pixel ht.right.1 ht.right.2 ht.across.1 ht.across.2
  obtain ⟨l, hl, hpy, hqy⟩ := exists_pixel ht.down.1 ht.down.2 ht.along.1 ht.along.2
  have hof := Footprint.of_eq (Rect.isFinite_rat f.rect)
  have hbx : (Footprint.of f).box.x =
      (Footprint.pixels f.rect.uv.x f.rect.size.x f.image.width).1 := by
    rw [hof]
  have hby : (Footprint.of f).box.y =
      (Footprint.pixels f.rect.uv.y f.rect.size.y f.image.height).1 := by
    rw [hof]
  have hk' : k < (Footprint.of f).box.width := by rw [hof]; exact hk
  have hl' : l < (Footprint.of f).box.height := by rw [hof]; exact hl
  obtain ⟨hw, hh, -⟩ := hshows.inside i f hi k l hk' hl'
  have hpixel := hshows.pixel i f hi k l hk' hl'
  have hplacex :
      ⌊((Footprint.of f).placedAt ((packing fragments).corner i) f.crop).rect.uv.x + t.x⌋ =
        (((packing fragments).corner i).1 + k : Nat) := by
    rw [hof]
    exact hqx _
  have hplacey :
      ⌊((Footprint.of f).placedAt ((packing fragments).corner i) f.crop).rect.uv.y + t.y⌋ =
        (((packing fragments).corner i).2 + l : Nat) := by
    rw [hof]
    exact hqy _
  rw [hplacex, hplacey, hpx, hpy, ← hbx, ← hby]
  simp only [Int.toNat_natCast]
  exact ⟨by omega, by omega, hpixel⟩

/-- Without outline every point of a placement shows the point of its fragment. -/
theorem samples_of_ofFragments? {fragments : List (ImageFragment Rat)}
    (hbounded : ∀ f ∈ fragments, f.image.IsBounded) {a : Atlas Rat}
    (h : ofFragments? fragments none = some a) : a.Samples fragments := by
  cases fragments with
  | nil => exact fun i f hi => by simp at hi
  | cons f rest =>
    rw [ofFragments?_eq (List.cons_ne_nil f rest), Option.map_id'] at h
    exact samples_of_plain? hbounded h

/-- An atlas on which nothing is drawn shows every pixel of every footprint at its place and nothing
else, in floating point and in exact arithmetic; and in exact arithmetic its placements lead to the
pixels at which the rectangles of the fragments are. -/
theorem ofFragments?_faithful :
    (∀ (fragments : List (ImageFragment Float)) (a : Atlas Float),
      (∀ f ∈ fragments, f.image.IsBounded) → ofFragments? fragments none = some a →
        a.Shows fragments) ∧
    (∀ (fragments : List (ImageFragment Rat)) (a : Atlas Rat),
      (∀ f ∈ fragments, f.image.IsBounded) → ofFragments? fragments none = some a →
        a.Shows fragments ∧ a.Samples fragments) :=
  ⟨fun _ _ hbounded h => shows_of_ofFragments? hbounded h,
    fun _ _ hbounded h =>
      ⟨shows_of_ofFragments? hbounded h, samples_of_ofFragments? hbounded h⟩⟩

/-- A part of an image that begins in the middle of a pixel, and its last row: the row has its place
below the pixels that the first part needs. -/
theorem ofFragments?_faithful_of_two :
    let image : Image := .ofFn 2 2 fun x y => ⟨x.toUInt8, y.toUInt8, 0, 255⟩
    let middle : ImageFragment Float := ⟨image, ⟨⟨0.5, 0.5⟩, ⟨1, 1⟩⟩, none⟩
    let row : ImageFragment Float := ⟨image, ⟨⟨0, 1⟩, ⟨2, 1⟩⟩, none⟩
    let middle' : ImageFragment Rat := ⟨image, ⟨⟨1 / 2, 1 / 2⟩, ⟨1, 1⟩⟩, none⟩
    let row' : ImageFragment Rat := ⟨image, ⟨⟨0, 1⟩, ⟨2, 1⟩⟩, none⟩
    image.IsBounded ∧
    (∃ a, ofFragments? [middle, row] none = some a ∧ a.Shows [middle, row] ∧
      a.placements.map (·.rect.uv) = [⟨0.5, 0.5⟩, ⟨0, 2⟩]) ∧
    (∃ a, ofFragments? [middle', row'] none = some a ∧ a.Shows [middle', row'] ∧
      a.Samples [middle', row'] ∧ a.placements.map (·.rect.uv) = [⟨1 / 2, 1 / 2⟩, ⟨0, 2⟩]) := by
  intro image middle row middle' row'
  have hbounded : image.IsBounded := by decide
  have hfloat : ((ofFragments? [middle, row] none).any fun a =>
      decide (a.placements.map (·.rect.uv) = [⟨0.5, 0.5⟩, ⟨0, 2⟩])) = true := by
    have hsizes : sizes [middle, row] = [⟨2, 2⟩, ⟨2, 1⟩] := by decide +kernel
    rw [ofFragments?_of_pairwise (List.cons_ne_nil _ _) hsizes (by decide) (by decide)]
    decide +kernel
  have hexact : ((ofFragments? [middle', row'] none).any fun a =>
      decide (a.placements.map (·.rect.uv) = [⟨1 / 2, 1 / 2⟩, ⟨0, 2⟩])) = true := by
    have hsizes : sizes [middle', row'] = [⟨2, 2⟩, ⟨2, 1⟩] := by decide +kernel
    rw [ofFragments?_of_pairwise (List.cons_ne_nil _ _) hsizes (by decide) (by decide)]
    decide +kernel
  obtain ⟨a, ha, hplaces⟩ := (Option.any_eq_true _ _).1 hfloat
  obtain ⟨b, hb, hplaces'⟩ := (Option.any_eq_true _ _).1 hexact
  have hshows : a.Shows [middle, row] :=
    ofFragments?_faithful.1 _ a (by simp [middle, row, hbounded]) ha
  obtain ⟨hshows', hsamples⟩ : b.Shows [middle', row'] ∧ b.Samples [middle', row'] :=
    ofFragments?_faithful.2 _ b (by simp [middle', row', hbounded]) hb
  exact ⟨hbounded, ⟨a, ha, hshows, of_decide_eq_true hplaces⟩, b, hb, hshows', hsamples,
    of_decide_eq_true hplaces'⟩

end Atlas

end BlockModels
