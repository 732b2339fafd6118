import BlockModels.Bounds
import BlockModels.Proofs.Packing.Tiling

/-!
# Packing in words

The packer computes with natural numbers. A machine has words, of which there is a greatest one
(`limit`): a sum that is greater has no result, and neither has a difference below zero. Here is the
packer once more in such words, where every sum and every difference is checked and a box for which
there is no room has no result either (`Packing.inWords?`).

If the strip is no wider than the greatest word and the heights of the boxes add up to a word, the
two packers agree (`Packing.inWords?_eq_some`). What carries the proof is the invariant of the
tiling: sums along a row stay within the width of the strip, sums down a column within the heights
of the boxes that were packed.
-/

namespace BlockModels

/-! ## Words -/

/-- A sum, if it is a word. -/
def addWord? (limit a b : Nat) : Option Nat := if a + b ≤ limit then some (a + b) else none

/-- A difference, if it is not below zero. -/
def subWord? (a b : Nat) : Option Nat := if b ≤ a then some (a - b) else none

/-- A sum within the limit is a word. -/
theorem addWord?_eq_some {limit a b : Nat} (h : a + b ≤ limit) :
    addWord? limit a b = some (a + b) :=
  if_pos h

/-- A difference that is not negative is a word. -/
theorem subWord?_eq_some {a b : Nat} (h : b ≤ a) : subWord? a b = some (a - b) :=
  if_pos h

/-! ## The packer in words -/

namespace FreeBox

/-- What is left of the shorter side; of the endless part it counts as the greatest word. -/
def slackWord? (limit : Nat) (f : FreeBox) (s : PixelSize) : Option Nat :=
  match f.height with
  | none => some limit
  | some h => do return min (← subWord? f.width s.width) (← subWord? h s.height)

/-- The first of the boxes that leave least, by its position and by what it leaves, if there is one
with room. -/
def bestWord? (limit : Nat) (s : PixelSize) : List FreeBox → Option (Option (Nat × Nat))
  | [] => some none
  | f :: rest => do
    let later := (← bestWord? limit s rest).map fun e => (e.1 + 1, e.2)
    if f.fits s then
      let slack ← f.slackWord? limit s
      match later with
      | some e => return some (if e.2 < slack then e else (0, slack))
      | none => return some (0, slack)
    else return later

/-- The parts that are left of a box after one of the size was placed in its corner. -/
def splitWord? (limit : Nat) (f : FreeBox) (s : PixelSize) : Option (List FreeBox) := do
  let besideWidth ← subWord? f.width s.width
  let right ← addWord? limit f.x s.width
  let bottom ← addWord? limit f.y s.height
  let parts : List FreeBox ← match f.height with
    | none => pure [⟨right, f.y, besideWidth, some s.height⟩, ⟨f.x, bottom, f.width, none⟩]
    | some h => do
      let belowHeight ← subWord? h s.height
      if besideWidth < belowHeight then
        pure [⟨right, f.y, besideWidth, some s.height⟩, ⟨f.x, bottom, f.width, some belowHeight⟩]
      else
        pure [⟨right, f.y, besideWidth, some h⟩, ⟨f.x, bottom, s.width, some belowHeight⟩]
  return parts.filter fun g => g.width != 0 && g.height != some 0

end FreeBox

/-- Places a box; there is no result if no free box has room for it. -/
def Strip.placeWord? (limit : Nat) (t : Strip) (item : PixelSize × Nat) : Option Strip :=
  let (s, i) := item
  if s.isEmpty then some t
  else do
    let (slot, _) ← (← FreeBox.bestWord? limit s t.free)
    let f ← t.free[slot]?
    let _ ← addWord? limit f.y s.height
    let parts ← f.splitWord? limit s
    return {
      free := swapRemove t.free slot ++ parts
      placed := (i, ⟨f.x, f.y, s.width, s.height⟩) :: t.placed }

/-- Packs boxes, each with its number, in the order in which they are listed. -/
def Packing.inWords? (limit width : Nat) (items : List (PixelSize × Nat)) : Option Packing := do
  let strip ← items.foldlM (Strip.placeWord? limit) (.empty width)
  return ⟨width, strip.height, strip.placed⟩

/-! ## The two packers agree -/

namespace FreeBox

/-- What fits into a free box leaves a slack in words, the limit if the box is endless. -/
theorem slackWord?_eq_some {limit : Nat} {f : FreeBox} {s : PixelSize} (h : f.fits s = true) :
    f.slackWord? limit s = some ((f.slack s).getD limit) := by
  have hw := width_le_of_fits h
  unfold slackWord? slack
  cases hheight : f.height with
  | none => rfl
  | some k =>
    have hk := height_le_of_fits h hheight
    simp [subWord?_eq_some hw, subWord?_eq_some hk]

/-- What a box leaves of a free box that has an end is less than the greatest word. -/
theorem slack_lt {limit k : Nat} {f : FreeBox} {s : PixelSize} (hf : f.width ≤ limit)
    (hs : 0 < s.width) (h : f.slack s = some k) (hfits : f.fits s = true) : k < limit := by
  have hw := width_le_of_fits hfits
  unfold slack at h
  obtain ⟨height, -, rfl⟩ := Option.map_eq_some_iff.1 h
  omega

/-- In words an endless slack is the greatest, as long as others are below the limit. -/
theorem tighter_iff {limit : Nat} {a b : Option Nat} (ha : ∀ k, a = some k → k < limit)
    (hb : ∀ k, b = some k → k < limit) :
    tighter a b = true ↔ a.getD limit < b.getD limit := by
  cases a with
  | none =>
    cases b with
    | none => simp [tighter]
    | some b => have := hb b rfl; simp [tighter]; omega
  | some a =>
    have := ha a rfl
    cases b with
    | none => simpa [tighter] using this
    | some b => simp [tighter]

/-- In words the same box is chosen. -/
theorem bestWord?_eq_some {limit : Nat} {s : PixelSize} {l : List FreeBox}
    (hl : ∀ f ∈ l, f.width ≤ limit) (hs : 0 < s.width) :
    bestWord? limit s l = some ((best? s l).map fun i =>
      (i, (((l[i]?).bind (·.slack s)).getD limit))) := by
  induction l with
  | nil => rfl
  | cons f rest ih =>
    have hrest := ih fun g hg => hl g (List.mem_cons_of_mem _ hg)
    rw [bestWord?, best?, hrest]
    cases hfits : f.fits s with
    | false => cases best? s rest <;> simp
    | true =>
      cases hbest : best? s rest with
      | none => simp [slackWord?_eq_some hfits]
      | some i =>
        obtain ⟨g, hg, hgfits⟩ := fits_of_best? hbest
        have hgw := hl g (List.mem_cons_of_mem _ (List.mem_of_getElem? hg))
        have hiff : tighter (g.slack s) (f.slack s) = true ↔
            (g.slack s).getD limit < (f.slack s).getD limit :=
          tighter_iff (fun k hk => slack_lt hgw hs hk hgfits)
            fun k hk => slack_lt (hl f List.mem_cons_self) hs hk hfits
        cases htight : tighter (g.slack s) (f.slack s) with
        | true => simp [slackWord?_eq_some hfits, hg, htight, hiff.1 htight]
        | false =>
          have hnot : ¬(g.slack s).getD limit < (f.slack s).getD limit := by
            rw [← hiff, htight]; simp
          simp [slackWord?_eq_some hfits, hg, htight, hnot]

/-- A free box is split in words if the placed box ends within the limit. -/
theorem splitWord?_eq_some {limit : Nat} {f : FreeBox} {s : PixelSize} (hfits : f.fits s = true)
    (hright : f.x + s.width ≤ limit) (hbottom : f.y + s.height ≤ limit) :
    f.splitWord? limit s = some (f.split s) := by
  have hw := width_le_of_fits hfits
  unfold splitWord? split
  rw [subWord?_eq_some hw, addWord?_eq_some hright, addWord?_eq_some hbottom]
  cases hheight : f.height with
  | none => rfl
  | some h =>
    have hh := height_le_of_fits hfits hheight
    simp only [subWord?_eq_some hh, Option.bind_eq_bind, Option.bind_some]
    by_cases hlt : f.width - s.width < h - s.height
    · simp [hlt]
    · simp [hlt]

end FreeBox

namespace Strip

variable {t : Strip} {limit width : Nat} {items : List (PixelSize × Nat)}

/-- In words a box is placed in the same way, as long as the heights add up to a word. -/
theorem Tiled.placeWord?_eq_some (h : t.Tiled width items) (hwidth : width ≤ limit)
    {s : PixelSize} (i : Nat) (hs : s.width ≤ width)
    (hheight : totalHeight items + s.height ≤ limit) :
    t.placeWord? limit (s, i) = some (t.place (s, i)) := by
  cases hempty : s.isEmpty with
  | true =>
    rw [place_of_isEmpty hempty]
    simp [placeWord?, hempty]
  | false =>
    obtain ⟨slot, f, hbest, hf, hfits⟩ := h.exists_best? hs
    have hmem : f ∈ t.free := List.mem_of_getElem? hf
    have hle := h.free_le f hmem
    have hw := FreeBox.width_le_of_fits hfits
    have hright : f.x + s.width ≤ limit := by omega
    have hbottom : f.y + s.height ≤ limit := by
      rcases h.bottom_le hmem hfits hempty with ⟨y, hy, rfl⟩ | ⟨k, hk, hsk, hlow⟩
      · simp only; omega
      · omega
    have hfree : ∀ g ∈ t.free, g.width ≤ limit := fun g hg => by
      have := h.free_le g hg
      omega
    have hword := FreeBox.bestWord?_eq_some hfree (PixelSize.isEmpty_eq_false_iff.1 hempty).1
    rw [hbest] at hword
    rw [place_of_best? hempty hbest hf]
    simp [placeWord?, hempty, hword, hf, addWord?_eq_some hbottom,
      FreeBox.splitWord?_eq_some hfits hright hbottom]

/-- In words boxes are packed in the same way, as long as their heights add up to a word. -/
theorem Tiled.foldlM_placeWord? (h : t.Tiled width items) (hwidth : width ≤ limit)
    {more : List (PixelSize × Nat)} (hs : ∀ item ∈ more, item.1.width ≤ width)
    (hheight : totalHeight items + totalHeight more ≤ limit) :
    more.foldlM (placeWord? limit) t = some (more.foldl Strip.place t) := by
  induction more generalizing t items with
  | nil => rfl
  | cons item more ih =>
    obtain ⟨s, i⟩ := item
    have hsum : totalHeight ((s, i) :: more) = s.height + totalHeight more := rfl
    have hsw : s.width ≤ width := hs _ List.mem_cons_self
    have hstep := h.placeWord?_eq_some hwidth i hsw (by omega)
    rw [List.foldlM_cons, hstep, List.foldl_cons]
    refine ih (h.place i hsw) (fun item hitem => hs item (List.mem_cons_of_mem _ hitem)) ?_
    rw [totalHeight_concat]
    simp only
    omega

end Strip

/-- In words the packing is the same, as long as the heights of the boxes add up to a word. -/
theorem Packing.inWords?_eq_some {limit width : Nat} {items : List (PixelSize × Nat)}
    (hs : ∀ item ∈ items, item.1.width ≤ width) (hwidth : width ≤ limit)
    (hheight : Strip.totalHeight items ≤ limit) :
    Packing.inWords? limit width items = some (packInOrder width items) := by
  have hrun := (Strip.tiled_empty width).foldlM_placeWord? hwidth hs
    (by simpa [Strip.totalHeight] using hheight)
  unfold Packing.inWords?
  rw [hrun]
  rfl

end BlockModels
