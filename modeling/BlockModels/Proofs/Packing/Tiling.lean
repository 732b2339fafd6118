import BlockModels.Atlas.Packing
import BlockModels.Proofs.Lists
import Mathlib

/-!
# Packing tiles the strip

While boxes are packed, every position of the strip belongs to exactly one box, which is either free
or placed. This is the invariant from which everything else about a packing follows
(`Strip.Tiled`): two placed boxes that shared a position would count twice there. It holds of the
empty strip, and placing a box preserves it (`Strip.Tiled.place`), because the parts into which a
free box is cut cover just what the placed box leaves of it (`FreeBox.countP_split`).

The invariant also says that the endless part keeps the full width, so that there is always room
(`Strip.exists_best?`), and that it begins no lower than the heights of the boxes add up to.
-/

namespace BlockModels

/-- A size has an extent if both of its sides do. -/
theorem PixelSize.isEmpty_eq_false_iff {s : PixelSize} :
    s.isEmpty = false ↔ 0 < s.width ∧ 0 < s.height := by
  simp [PixelSize.isEmpty, Nat.pos_iff_ne_zero]

/-- A box contains the positions between its sides. -/
theorem PixelBox.contains_iff {b : PixelBox} {x y : Nat} :
    b.contains x y = true ↔ b.x ≤ x ∧ x < b.x + b.width ∧ b.y ≤ y ∧ y < b.y + b.height := by
  simp [PixelBox.contains, and_assoc]

/-! ## The free box that is chosen -/

namespace FreeBox

/-- No free box is chosen only if none has room. -/
theorem best?_eq_none_iff {s : PixelSize} {l : List FreeBox} :
    best? s l = none ↔ ∀ f ∈ l, f.fits s = false := by
  induction l with
  | nil => simp [best?]
  | cons f rest ih =>
    rw [best?]
    cases hrest : best? s rest with
    | none =>
      have hnone := ih.1 hrest
      cases hf : f.fits s with
      | true => simp [hf]
      | false => simpa [hf] using hnone
    | some i =>
      have hsome : ¬∀ g ∈ rest, g.fits s = false := by
        rw [← ih, hrest]; simp
      simp only [List.mem_cons, forall_eq_or_imp, reduceCtorEq, false_iff]
      exact fun h => hsome h.2

/-- The chosen free box has room. -/
theorem fits_of_best? {s : PixelSize} {l : List FreeBox} {i : Nat} (h : best? s l = some i) :
    ∃ f, l[i]? = some f ∧ f.fits s = true := by
  induction l generalizing i with
  | nil => cases h
  | cons f rest ih =>
    rw [best?] at h
    cases hrest : best? s rest with
    | none =>
      rw [hrest] at h
      simp only at h
      split at h
      · next hf => cases h; exact ⟨f, rfl, hf⟩
      · cases h
    | some j =>
      rw [hrest] at h
      simp only [Option.some.injEq] at h
      split at h
      · next hf =>
        subst h
        exact ⟨f, rfl, (Bool.and_eq_true_iff.1 hf).1⟩
      · subst h
        exact ih hrest

/-- What fits into a free box is no wider. -/
theorem width_le_of_fits {f : FreeBox} {s : PixelSize} (h : f.fits s = true) :
    s.width ≤ f.width := by
  simp only [fits, Bool.and_eq_true, decide_eq_true_eq] at h
  exact h.1

/-- What fits into a free box that ends is no higher. -/
theorem height_le_of_fits {f : FreeBox} {s : PixelSize} {k : Nat} (h : f.fits s = true)
    (hk : f.height = some k) : s.height ≤ k := by
  simp only [fits, hk, Option.all_some, Bool.and_eq_true, decide_eq_true_eq] at h
  exact h.2

/-! ## What a cut covers -/

/-- The position lies in the free box. -/
def contains (f : FreeBox) (x y : Nat) : Bool :=
  decide (f.x ≤ x) && decide (x < f.x + f.width) && decide (f.y ≤ y) &&
    f.height.all fun h => decide (y < f.y + h)

/-- An endless box contains everything below its beginning. -/
theorem contains_endless {x₀ y₀ width x y : Nat} :
    contains ⟨x₀, y₀, width, none⟩ x y = true ↔ x₀ ≤ x ∧ x < x₀ + width ∧ y₀ ≤ y := by
  simp [contains, and_assoc]

/-- A free box that ends contains the positions between its sides. -/
theorem contains_bounded {x₀ y₀ width height x y : Nat} :
    contains ⟨x₀, y₀, width, some height⟩ x y = true ↔
      x₀ ≤ x ∧ x < x₀ + width ∧ y₀ ≤ y ∧ y < y₀ + height := by
  simp [contains, and_assoc]

/-- A part without extent contains nothing, so leaving it out does not change what is covered. -/
theorem countP_contains_filter (l : List FreeBox) (x y : Nat) :
    (l.filter fun g => g.width != 0 && g.height != some 0).countP (·.contains x y) =
      l.countP (·.contains x y) := by
  rw [List.countP_filter]
  refine List.countP_congr fun g _ => ?_
  obtain ⟨x₀, y₀, width, height⟩ := g
  cases height with
  | none =>
    simp only [Bool.and_eq_true, contains_endless, bne_iff_ne]
    constructor
    · exact fun h => h.1
    · exact fun h => ⟨h, by omega, by simp⟩
  | some height =>
    simp only [Bool.and_eq_true, contains_bounded, bne_iff_ne, ne_eq, Option.some.injEq]
    constructor
    · exact fun h => h.1
    · exact fun h => ⟨h, by omega, by omega⟩

/-- A free box is cut into the placed box and the parts that are left, without a loss and without
an overlap. -/
theorem countP_split {f : FreeBox} {s : PixelSize} (h : f.fits s = true) (x y : Nat) :
    (f.split s).countP (·.contains x y) +
        (if PixelBox.contains ⟨f.x, f.y, s.width, s.height⟩ x y then 1 else 0) =
      if f.contains x y then 1 else 0 := by
  have hw : s.width ≤ f.width := width_le_of_fits h
  obtain ⟨x₀, y₀, width, height⟩ := f
  cases height with
  | none =>
    simp only [split, countP_contains_filter, List.countP_cons, List.countP_nil, contains_endless,
      contains_bounded, PixelBox.contains_iff]
    simp only at hw
    split_ifs <;> omega
  | some height =>
    have hh : s.height ≤ height := height_le_of_fits h rfl
    simp only at hw
    by_cases hlt : width - s.width < height - s.height
    · simp only [split, hlt, if_true, countP_contains_filter, List.countP_cons, List.countP_nil,
        contains_bounded, PixelBox.contains_iff]
      split_ifs <;> omega
    · simp only [split, hlt, if_false, countP_contains_filter, List.countP_cons, List.countP_nil,
        contains_bounded, PixelBox.contains_iff]
      split_ifs <;> omega

end FreeBox

/-- What is left when an item is taken out is the list without it, in some order. -/
theorem perm_cons_swapRemove {β : Type} {l : List β} {i : Nat} {a : β} (h : l[i]? = some a) :
    l.Perm (a :: swapRemove l i) := by
  obtain ⟨hi, rfl⟩ := List.getElem?_eq_some_iff.1 h
  rcases List.eq_nil_or_concat l with rfl | ⟨l, last, rfl⟩
  · simp at hi
  simp only [swapRemove, List.concat_eq_append, List.getLast?_concat]
  rw [List.concat_eq_append, List.length_append, List.length_singleton] at hi
  rcases Nat.lt_or_ge i l.length with hlt | hge
  · rw [List.set_append_left _ _ hlt, List.dropLast_concat, List.getElem_append_left hlt]
    calc
      List.Perm (l ++ [last]) (last :: l) := List.perm_append_comm
      List.Perm _ (last :: l[i] :: l.eraseIdx i) :=
        .cons _ (List.getElem_cons_eraseIdx_perm hlt).symm
      List.Perm _ (l[i] :: last :: l.eraseIdx i) := .swap _ _ _
      List.Perm _ (l[i] :: l.set i last) := .cons _ (List.set_perm_cons_eraseIdx hlt last).symm
  · have hlen : i = l.length := by omega
    subst hlen
    rw [List.set_append_right _ _ (Nat.le_refl _), Nat.sub_self, List.set_cons_zero,
      List.dropLast_concat, List.getElem_append_right (Nat.le_refl _)]
    simp

namespace Strip

/-! ## The invariant -/

/-- The number of boxes, free or placed, in which a position lies. -/
def cover (t : Strip) (x y : Nat) : Nat :=
  t.free.countP (·.contains x y) + t.placed.countP (·.2.contains x y)

/-- The heights of boxes, added up. -/
def totalHeight (items : List (PixelSize × Nat)) : Nat := (items.map (·.1.height)).sum

/-- A strip after some boxes were packed. Every position of the strip belongs to exactly one box
(`cover_eq_one`); no box reaches over the right edge; the endless part has kept the full width and
begins no lower than the heights add up to; and each box that has an extent was placed with the size
and the number that it came with. -/
structure Tiled (width : Nat) (items : List (PixelSize × Nat)) (t : Strip) : Prop where
  cover_eq_one : ∀ x y, x < width → t.cover x y = 1
  free_le : ∀ f ∈ t.free, f.x + f.width ≤ width
  placed_le : ∀ e ∈ t.placed, e.2.x + e.2.width ≤ width
  endless : ∃ y, y ≤ totalHeight items ∧ ⟨0, y, width, none⟩ ∈ t.free
  placed_eq : t.placed.map (fun e => ((⟨e.2.width, e.2.height⟩ : PixelSize), e.1)) =
    (items.filter fun item => !item.1.isEmpty).reverse

/-- The empty strip is tiled by its endless box. -/
theorem tiled_empty (width : Nat) : Tiled width [] (empty width) where
  cover_eq_one x y hx := by
    simp only [cover, empty, List.countP_cons, List.countP_nil, FreeBox.contains_endless]
    simp [hx]
  free_le f hf := by
    simp only [empty, List.mem_singleton] at hf
    subst hf
    simp
  placed_le e he := by cases he
  endless := ⟨0, Nat.le_refl _, List.mem_singleton.2 rfl⟩
  placed_eq := rfl

variable {t : Strip} {width : Nat} {items : List (PixelSize × Nat)}

/-- There is always room: the endless part is as wide as the strip. -/
theorem Tiled.exists_best? (h : t.Tiled width items) {s : PixelSize} (hs : s.width ≤ width) :
    ∃ slot f, FreeBox.best? s t.free = some slot ∧ t.free[slot]? = some f ∧ f.fits s = true := by
  cases hbest : FreeBox.best? s t.free with
  | none =>
    obtain ⟨y, -, hmem⟩ := h.endless
    have hnot := FreeBox.best?_eq_none_iff.1 hbest _ hmem
    simp [FreeBox.fits, hs] at hnot
  | some slot =>
    obtain ⟨f, hf, hfits⟩ := FreeBox.fits_of_best? hbest
    exact ⟨slot, f, rfl, hf, hfits⟩

/-- A position of the strip does not lie in two free boxes. -/
theorem Tiled.eq_of_contains (h : t.Tiled width items) {f g : FreeBox} {x y : Nat}
    (hf : f ∈ t.free) (hg : g ∈ t.free) (hx : x < width) (hfc : f.contains x y = true)
    (hgc : g.contains x y = true) : f = g := by
  have hone : t.free.countP (·.contains x y) ≤ 1 := by
    rw [← h.cover_eq_one x y hx]
    exact Nat.le_add_right _ _
  exact eq_of_countP_le_one hone hf hg hfc hgc

/-- A position does not lie in two placed boxes. -/
theorem Tiled.eq_of_placed_contains (h : t.Tiled width items) {e e' : Nat × PixelBox} {x y : Nat}
    (he : e ∈ t.placed) (he' : e' ∈ t.placed) (hec : e.2.contains x y = true)
    (hec' : e'.2.contains x y = true) : e = e' := by
  have hx : x < width := by
    have hle := h.placed_le e he
    have hin := (PixelBox.contains_iff.1 hec).2.1
    omega
  have hone : t.placed.countP (·.2.contains x y) ≤ 1 := by
    rw [← h.cover_eq_one x y hx]
    exact Nat.le_add_left _ _
  exact eq_of_countP_le_one hone he he' hec hec'

/-- A free box with room for a box that has an extent is the endless part, or it ends above it. -/
theorem Tiled.bottom_le (h : t.Tiled width items) {f : FreeBox} {s : PixelSize} (hf : f ∈ t.free)
    (hfits : f.fits s = true) (hs : s.isEmpty = false) :
    (∃ y, y ≤ totalHeight items ∧ f = ⟨0, y, width, none⟩) ∨
      ∃ k, f.height = some k ∧ s.height ≤ k ∧ f.y + k ≤ totalHeight items := by
  obtain ⟨y₀, hy₀, hend⟩ := h.endless
  have hle := h.free_le f hf
  have hw := FreeBox.width_le_of_fits hfits
  rw [PixelSize.isEmpty_eq_false_iff] at hs
  obtain ⟨x, y, w, height⟩ := f
  simp only at hle hw
  have hx : x < width := by omega
  cases height with
  | none =>
    have hfc : FreeBox.contains ⟨x, y, w, none⟩ x (max y y₀) = true :=
      FreeBox.contains_endless.2 (by omega)
    have hec : FreeBox.contains ⟨0, y₀, width, none⟩ x (max y y₀) = true :=
      FreeBox.contains_endless.2 (by omega)
    exact .inl ⟨y₀, hy₀, h.eq_of_contains hf hend hx hfc hec⟩
  | some k =>
    have hk : s.height ≤ k := FreeBox.height_le_of_fits hfits rfl
    refine .inr ⟨k, rfl, hk, ?_⟩
    by_contra hlow
    simp only at hlow
    have hfc : FreeBox.contains ⟨x, y, w, some k⟩ x (y + k - 1) = true :=
      FreeBox.contains_bounded.2 (by omega)
    have hec : FreeBox.contains ⟨0, y₀, width, none⟩ x (y + k - 1) = true :=
      FreeBox.contains_endless.2 (by omega)
    cases h.eq_of_contains hf hend hx hfc hec

/-! ## One box -/

/-- A box without extent is not placed. -/
theorem place_of_isEmpty {s : PixelSize} {i : Nat} (hs : s.isEmpty = true) :
    t.place (s, i) = t := by
  simp [place, hs]

/-- A box is placed in the corner of the best free box, which is split. -/
theorem place_of_best? {s : PixelSize} {i slot : Nat} {f : FreeBox} (hs : s.isEmpty = false)
    (hbest : FreeBox.best? s t.free = some slot) (hf : t.free[slot]? = some f) :
    t.place (s, i) =
      { free := swapRemove t.free slot ++ f.split s
        placed := (i, ⟨f.x, f.y, s.width, s.height⟩) :: t.placed } := by
  simp [place, hs, hbest, hf]

/-- One more box adds its height. -/
theorem totalHeight_concat (items : List (PixelSize × Nat)) (item : PixelSize × Nat) :
    totalHeight (items ++ [item]) = totalHeight items + item.1.height := by
  simp [totalHeight]

/-- The parts of a free box reach no further to the right. -/
theorem FreeBox.mem_split {f g : FreeBox} {s : PixelSize} (hfits : f.fits s = true)
    (hg : g ∈ f.split s) : g.x + g.width ≤ f.x + f.width := by
  have hw := FreeBox.width_le_of_fits hfits
  have hmem := (List.mem_filter.1 hg).1
  obtain ⟨x, y, w, height⟩ := f
  cases height with
  | none =>
    simp only [List.mem_cons, List.not_mem_nil, or_false] at hmem hw
    rcases hmem with rfl | rfl <;> simp only <;> omega
  | some k =>
    simp only at hmem hw
    split at hmem <;>
    · simp only [List.mem_cons, List.not_mem_nil, or_false] at hmem
      rcases hmem with rfl | rfl <;> simp only <;> omega

/-- Placing a box preserves the invariant. -/
theorem Tiled.place (h : t.Tiled width items) {s : PixelSize} (i : Nat) (hs : s.width ≤ width) :
    (t.place (s, i)).Tiled width (items ++ [(s, i)]) := by
  cases hempty : s.isEmpty with
  | true =>
    rw [place_of_isEmpty hempty]
    obtain ⟨y, hy, hend⟩ := h.endless
    exact {
      cover_eq_one := h.cover_eq_one
      free_le := h.free_le
      placed_le := h.placed_le
      endless := ⟨y, by rw [totalHeight_concat]; omega, hend⟩
      placed_eq := by rw [h.placed_eq]; simp [hempty] }
  | false =>
    obtain ⟨slot, f, hbest, hf, hfits⟩ := h.exists_best? hs
    have hperm := perm_cons_swapRemove hf
    have hmem : f ∈ t.free := List.mem_of_getElem? hf
    have hle := h.free_le f hmem
    have hw := FreeBox.width_le_of_fits hfits
    rw [place_of_best? hempty hbest hf]
    exact {
      cover_eq_one := fun x y hx => by
        have hone := h.cover_eq_one x y hx
        have hsplit := FreeBox.countP_split hfits x y
        have hcount := hperm.countP_eq (·.contains x y)
        simp only [cover, List.countP_append, List.countP_cons] at hone hcount ⊢
        omega
      free_le := fun g hg => by
        rcases List.mem_append.1 hg with hg | hg
        · exact h.free_le g (hperm.mem_iff.2 (List.mem_cons_of_mem _ hg))
        · have := FreeBox.mem_split hfits hg
          omega
      placed_le := fun e he => by
        rcases List.mem_cons.1 he with rfl | he
        · simp only; omega
        · exact h.placed_le e he
      endless := by
        obtain ⟨y₀, hy₀, hend⟩ := h.endless
        rw [totalHeight_concat]
        by_cases hfe : f = ⟨0, y₀, width, none⟩
        · refine ⟨y₀ + s.height, by simp only; omega, List.mem_append_right _ ?_⟩
          subst hfe
          have hwidth : width ≠ 0 := by
            have := PixelSize.isEmpty_eq_false_iff.1 hempty
            omega
          exact List.mem_filter.2 ⟨by simp, by simpa using hwidth⟩
        · refine ⟨y₀, by omega, List.mem_append_left _ ?_⟩
          rcases List.mem_cons.1 (hperm.mem_iff.1 hend) with heq | hmem
          · exact absurd heq.symm hfe
          · exact hmem
      placed_eq := by
        rw [List.map_cons, h.placed_eq, List.filter_append, List.reverse_append]
        simp [hempty] }

/-! ## All boxes -/

/-- Packing boxes one after the other preserves the invariant. -/
theorem Tiled.foldl_place (h : t.Tiled width items) {more : List (PixelSize × Nat)}
    (hs : ∀ item ∈ more, item.1.width ≤ width) :
    (more.foldl Strip.place t).Tiled width (items ++ more) := by
  induction more generalizing t items with
  | nil => simpa using h
  | cons item more ih =>
    obtain ⟨s, i⟩ := item
    have hstep := h.place i (hs _ List.mem_cons_self)
    have hrest := ih hstep fun item hitem => hs item (List.mem_cons_of_mem _ hitem)
    rwa [List.append_assoc, List.singleton_append] at hrest

/-- The strip into which boxes were packed is tiled by them and by what is free. -/
theorem tiled_foldl_place {width : Nat} {items : List (PixelSize × Nat)}
    (hs : ∀ item ∈ items, item.1.width ≤ width) :
    (items.foldl Strip.place (.empty width)).Tiled width items := by
  simpa using (tiled_empty width).foldl_place hs

/-- No placed box ends below the height of the strip. -/
theorem le_height {e : Nat × PixelBox} (he : e ∈ t.placed) : e.2.y + e.2.height ≤ t.height := by
  obtain ⟨free, placed⟩ := t
  simp only [height] at he ⊢
  induction placed with
  | nil => cases he
  | cons e' rest ih =>
    rw [List.foldr_cons]
    rcases List.mem_cons.1 he with rfl | he
    · exact Nat.le_max_right _ _
    · exact Nat.le_trans (ih he) (Nat.le_max_left _ _)

end Strip

end BlockModels
